import PcNetwork.Library.Framing
import PcNetwork.Library.Path
import PcNetwork.Services.NetEvent

namespace PcNetwork.NetEvent
open SockBuf

-- The message stream: an int that is not negative, and as many bytes.
def nextMessage (bytes : List UInt8) : Verdict UInt8 (List UInt8) :=
  if bytes.length < 4 then .more
  else if (len bytes).toInt < 0 then .bad
  else if bytes.length < 4+(len bytes).toInt.toNat then .more
  else .frame (Block.slice bytes 4 (len bytes).toInt.toNat) (bytes.drop (4+(len bytes).toInt.toNat))

theorem len_append {bytes : List UInt8} (later : List UInt8) (header : 4 ≤ bytes.length) : len (bytes ++ later) = len bytes := by
  have four : msgHeaderLen.toNat = 4 := rfl
  rw [len,len,List.take_append_of_le_length (by omega)]

theorem nextMessage_frame {bytes body rest : List UInt8} (found : nextMessage bytes = .frame body rest) :
    4 ≤ bytes.length ∧ 0 ≤ (len bytes).toInt ∧ 4+(len bytes).toInt.toNat ≤ bytes.length ∧
    body = Block.slice bytes 4 (len bytes).toInt.toNat ∧ rest = bytes.drop (4+(len bytes).toInt.toNat) := by
  unfold nextMessage at found
  split at found
  · cases found
  · split at found
    · cases found
    · split at found
      · cases found
      · rename_i header nonneg whole
        cases found
        exact ⟨Nat.not_lt.mp header,Int.not_lt.mp nonneg,Nat.not_lt.mp whole,rfl,rfl⟩

theorem nextMessage_whole {bytes : List UInt8} (header : 4 ≤ bytes.length) (nonneg : 0 ≤ (len bytes).toInt)
    (whole : 4+(len bytes).toInt.toNat ≤ bytes.length) :
    nextMessage bytes = .frame (Block.slice bytes 4 (len bytes).toInt.toNat) (bytes.drop (4+(len bytes).toInt.toNat)) := by
  unfold nextMessage
  rw [if_neg (Nat.not_lt.mpr header),if_neg (Int.not_lt.mpr nonneg),if_neg (Nat.not_lt.mpr whole)]

theorem nextMessage_consumes {bytes body rest : List UInt8} (found : nextMessage bytes = .frame body rest) : rest.length < bytes.length := by
  obtain ⟨header,_,_,_,rfl⟩ := nextMessage_frame found
  rw [List.length_drop]
  omega

theorem nextMessage_final {bytes body rest : List UInt8} (later : List UInt8) (found : nextMessage bytes = .frame body rest) :
    nextMessage (bytes ++ later) = .frame body (rest ++ later) := by
  obtain ⟨header,nonneg,whole,rfl,rfl⟩ := nextMessage_frame found
  have same := len_append later header
  rw [nextMessage_whole (by rw [List.length_append]; omega) (by rw [same]; exact nonneg) (by rw [same,List.length_append]; omega),same,
    List.drop_append_of_le_length whole]
  congr 1
  rw [Block.slice,Block.slice,List.drop_append_of_le_length header,List.take_append_of_le_length (by rw [List.length_drop]; omega)]

theorem nextMessage_bad {bytes : List UInt8} (later : List UInt8) (refused : nextMessage bytes = .bad) : nextMessage (bytes ++ later) = .bad := by
  unfold nextMessage at refused
  split at refused
  · cases refused
  · rename_i header
    split at refused
    · rename_i negative
      have same := len_append later (Nat.not_lt.mp header)
      unfold nextMessage
      rw [if_neg (by rw [List.length_append]; omega),same,if_pos negative]
    · split at refused <;> cases refused

def messages : Framing UInt8 (List UInt8) where
  next := nextMessage
  next_nil := rfl
  consumes := nextMessage_consumes
  frame_final := nextMessage_final
  bad_final := nextMessage_bad

-- A message as the other side sends it.
def encode (body : List UInt8) : List UInt8 := Endian.ofInt32 (Int32.ofInt body.length) ++ body

theorem encode_next {body : List UInt8} (short : body.length < 2^31) (later : List UInt8) :
    messages.next (encode body ++ later) = .frame body later := by
  have back : (Int32.ofInt body.length).toInt = body.length := by
    rw [Int32.toInt_ofInt]
    unfold Int32.size
    exact Int.bmod_eq_of_le (by omega) (by omega)
  have header : (Endian.ofInt32 (Int32.ofInt body.length)).length = 4 := Endian.length_ofInt32 _
  have found : len (encode body ++ later) = Int32.ofInt body.length := by
    rw [len,encode,List.append_assoc]
    exact (congrArg Endian.toInt32 (List.take_left' header)).trans (Endian.int32_roundtrip _)
  have count : (len (encode body ++ later)).toInt.toNat = body.length := by
    rw [found,back]
    rfl
  have length : (encode body ++ later).length = 4+(body.length+later.length) := by
    rw [encode,List.append_assoc,List.length_append,header,List.length_append]
  have nonneg : 0 ≤ (len (encode body ++ later)).toInt := by
    rw [found,back]
    exact Int.natCast_nonneg _
  have whole : nextMessage (encode body ++ later) = _ := nextMessage_whole (by omega) nonneg (by omega)
  have middle := Block.slice_middle (Endian.ofInt32 (Int32.ofInt body.length)) body later
  have behind : (encode body ++ later).drop (4+body.length) = later := List.drop_left' (by rw [encode,List.length_append,header])
  rw [header,← List.append_assoc] at middle
  rw [count,behind,encode,middle,← encode] at whole
  have form : messages.next = nextMessage := rfl
  rw [form,whole]

-- A connection: its read_buf, the bytes that have arrived, and the bodies that onRead has
-- delivered.
structure Connection where
  buf : SockBuf
  received : List UInt8
  delivered : List (List UInt8)

def Connection.new (size : UInt32) : Connection := ⟨SockBuf.new size,[],[]⟩

-- onRead, on the buffer with the chunk in it.
def Connection.read (program : Program) (s : Connection) (chunk : List UInt8) (stored : SockBuf) : Connection :=
  match onRead program stored with
  | .ok answer c => ⟨c,s.received ++ chunk,s.delivered ++ answer.toList.map Message.body⟩
  | .error _ c => ⟨c,s.received ++ chunk,s.delivered⟩

-- The calls that store a chunk, behind one that makes room for it. `sent` is what the other
-- side sends in all.
def ready (b : SockBuf) (m : SockBuf) : Prop := m = b ∨ ∃ room, SockStep b (.ensureWritableBytes room) m
def stores (chunk : List UInt8) (event : SockEvent) : Prop := event = .apendBuf chunk ∨ event = .push chunk ∨ event = .write chunk

inductive ChunkStep (program : Program) (sent : List (List UInt8)) : Connection → List UInt8 → Connection → Prop where
  | chunk (arrives : s.received ++ chunk <+: sent.flatMap encode) (room : ready s.buf b) (store : stores chunk event)
      (stored : SockStep b event m) : ChunkStep program sent s chunk (s.read program chunk m)

-- All complete messages have been delivered, and the buffer holds what is left.
def Caught (s : Connection) : Prop := messages.split s.received = (s.delivered,.waiting s.buf.readable)

-- The messages that a chunk completes.
def completes (s : Connection) (chunk : List UInt8) : List (List UInt8) :=
  (messages.split (s.received ++ chunk)).1.drop (messages.split s.received).1.length

-- It completes one at most, and behind an empty one there is a byte of the next.
def Single (s : Connection) (chunk : List UInt8) : Prop :=
  (completes s chunk).length ≤ 1 ∧ ([] ∈ completes s chunk → (messages.split (s.received ++ chunk)).2 ≠ .waiting [])

theorem ready_kept {m : SockBuf} (ok : Ok b) (room : ready b m) : Ok m ∧ m.readable = b.readable := by
  rcases room with rfl | ⟨_,step⟩
  · exact ⟨ok,rfl⟩
  · obtain ⟨kept,_,_,parts,_⟩ := sockStep_ok ok step
    exact ⟨kept,by simpa [SockEvent.appended,SockEvent.consumed] using parts.symm⟩

theorem chunk_stored {chunk : List UInt8} {c : SockBuf} (ok : Ok b) (room : ready b c) (store : stores chunk event) (stored : SockStep c event m) :
    Ok m ∧ m.readable = b.readable ++ chunk := by
  obtain ⟨fine,same⟩ := ready_kept ok room
  obtain ⟨kept,_,_,parts,_⟩ := sockStep_ok fine stored
  refine ⟨kept,?_⟩
  rw [← same]
  rcases store with rfl | rfl | rfl <;> exact parts.symm

-- What onRead does with the front of the stream.
theorem onRead_more (program : Program) (ok : Ok b) (answer : messages.next b.readable = .more) : onRead program b = .ok none b := by
  have waits := (onRead_handles program ok).waits
  apply waits
  have answer : nextMessage b.readable = .more := answer
  unfold nextMessage at answer
  split at answer
  · exact .inl (by omega)
  · split at answer
    · cases answer
    · rename_i nonneg
      have total := total_nonneg (Int.not_lt.mp nonneg)
      split at answer
      · exact .inr (by omega)
      · cases answer

-- An empty message that ends the buffer is not taken.
theorem onRead_frame (program : Program) (ok : Ok b) (answer : messages.next b.readable = .frame body rest) :
    (body = [] ∧ rest = [] ∧ onRead program b = .ok none b) ∨
    ((body ≠ [] ∨ rest ≠ []) ∧ ∃ sent c, onRead program b = .ok (some ⟨body,sent⟩) c ∧ Ok c ∧ c.readable = rest) := by
  obtain ⟨header,nonneg,whole,rfl,rfl⟩ := nextMessage_frame answer
  have total := total_nonneg nonneg
  have handles := onRead_handles program ok
  have count : (Block.slice b.readable 4 (len b.readable).toInt.toNat).length = (len b.readable).toInt.toNat := Block.length_slice whole
  have left : (b.readable.drop (4+(len b.readable).toInt.toNat)).length = b.readable.length-(4+(len b.readable).toInt.toNat) :=
    List.length_drop
  by_cases short : b.readable.length ≤ 4
  · exact .inl ⟨List.length_eq_zero_iff.mp (by omega),List.length_eq_zero_iff.mp (by omega),handles.waits (.inl short)⟩
  · obtain ⟨c,kept,rest,took⟩ := handles.takes (Nat.not_le.mp short) (by omega) nonneg
    refine .inr ⟨?_,_,c,took,kept,rest⟩
    by_contra both
    rw [not_or,not_not,not_not] at both
    have none := congrArg List.length both.1
    have empty := congrArg List.length both.2
    rw [count] at none
    rw [left] at empty
    simp only [List.length_nil] at none empty
    omega

-- Bytes without a frame that are not refused.
theorem split_empty {bytes : List UInt8} (none : (messages.split bytes).1 = []) (waits : (messages.split bytes).2 ≠ .broken) :
    messages.split bytes = ([],.waiting bytes) := by
  cases answer : messages.next bytes with
  | more => exact messages.split_more answer
  | bad =>
    rw [messages.split_bad answer] at waits
    exact absurd rfl waits
  | frame body rest =>
    rw [messages.split_frame answer] at none
    cases none

-- A chunk that finds all messages delivered leaves it so exactly if it completes a single one.
theorem chunkStep_caught {s t : Connection} (short : ∀ body ∈ sent, body.length < 2^31) (ok : Ok s.buf) (caught : Caught s)
    (step : ChunkStep program sent s chunk t) : Ok t.buf ∧ (Caught t ↔ Single s chunk) := by
  cases step with
  | chunk arrives room store stored =>
    rename_i m
    obtain ⟨fine,readable⟩ := chunk_stored ok room store stored
    have split := messages.absorb_split s.received chunk
    rw [caught] at split
    have split : (s.delivered ++ (messages.split (s.buf.readable ++ chunk)).1,(messages.split (s.buf.readable ++ chunk)).2) =
      messages.split (s.received ++ chunk) := split
    rw [← readable] at split
    have done : completes s chunk = (messages.split m.readable).1 := by rw [completes,← split,caught,List.drop_left' rfl]
    have waits : (messages.split m.readable).2 ≠ .broken := by
      obtain ⟨_,_,tail,_,whole,_⟩ := messages.split_encoded (fun body member => encode_next (short body member)) arrives
      rw [whole] at split
      rw [(Prod.mk.inj split).2]
      nofun
    have tail : (messages.split (s.received ++ chunk)).2 = (messages.split m.readable).2 := by rw [← split]
    unfold Single
    rw [done,tail]
    cases answer : messages.next m.readable with
    | more =>
      have after : s.read program chunk m = ⟨m,s.received ++ chunk,s.delivered⟩ := by
        simp [Connection.read,onRead_more program fine answer]
      rw [messages.split_more answer] at split ⊢
      rw [after,Caught]
      simp [← split,fine]
    | bad =>
      rw [messages.split_bad answer] at waits
      exact absurd rfl waits
    | frame body rest =>
      rw [messages.split_frame answer] at split waits ⊢
      rcases onRead_frame program fine answer with ⟨rfl,rfl,kept⟩ | ⟨some,sent,c,took,kept,left⟩
      · have after : s.read program chunk m = ⟨m,s.received ++ chunk,s.delivered⟩ := by simp [Connection.read,kept]
        rw [after,Caught]
        simp [← split,fine]
      · have after : s.read program chunk m = ⟨c,s.received ++ chunk,s.delivered ++ [body]⟩ := by simp [Connection.read,took]
        rw [after,Caught,← split]
        refine ⟨kept,?_⟩
        constructor
        · intro same
          have none : (messages.split rest).1 = [] := by simpa using (Prod.mk.inj same).1
          rw [split_empty none waits]
          simpa [or_iff_not_imp_left,eq_comm] using some
        · intro single
          have none : (messages.split rest).1 = [] := by simpa using single.1
          rw [split_empty none waits,left]

theorem delivered_iff {sent : List (List UInt8)} {size : UInt32} (short : ∀ body ∈ sent, body.length < 2^31)
    (small : size.toNat < 2^31) (path : Path (ChunkStep program sent) (Connection.new size) taken last) :
    (∀ t ∈ taken, Caught t.after) ↔ ∀ t ∈ taken, Single t.before t.event := by
  have start : Ok (Connection.new size).buf ∧ Caught (Connection.new size) := by
    refine ⟨new_ok small,?_⟩
    exact messages.split_nil.trans (congrArg (fun rest => ([],Tail.waiting rest)) (Block.slice_zero _ _).symm)
  exact path.exactly_from (fun s => Ok s.buf ∧ Caught s) (fun _ _ after => Caught after) Single start
    (fun _ _ _ inv step caught => ⟨(chunkStep_caught short inv.1 inv.2 step).1,caught⟩)
    fun _ _ _ inv step => (chunkStep_caught short inv.1 inv.2 step).2

theorem delivered_iff_byte : ∃ taken last, Path (ChunkStep .netSelect [[7]]) (Connection.new 8) taken last ∧ taken.length = 2 ∧
    ((∀ t ∈ taken, Caught t.after) ↔ ∀ t ∈ taken, Single t.before t.event) := by
  have first : ChunkStep .netSelect [[7]] (Connection.new 8) [1,0] _ := .chunk (by decide) (.inl rfl) (.inl rfl) (.call (by decide))
  have second : ChunkStep .netSelect [[7]] ((Connection.new 8).read .netSelect [1,0] (final ((SockEvent.apendBuf [1,0]).run (SockBuf.new 8))))
    [0,0,7] _ := .chunk (by decide) (.inr ⟨512,.call (by decide)⟩) (.inr (.inr rfl)) (.call (by decide))
  have path := Path.step (.step .nil first) second
  exact ⟨_,_,path,rfl,delivered_iff (by decide) (by decide) path⟩

-- Two messages in one chunk: the second one waits in the buffer.
theorem delivered_late : ¬ ∀ (program : Program) (sent : List (List UInt8)) (size : UInt32) (taken : List (Transition Connection (List UInt8)))
    (last : Connection), (∀ body ∈ sent, body.length < 2^31) → size.toNat < 2^31 →
    Path (ChunkStep program sent) (Connection.new size) taken last → ∀ t ∈ taken, Caught t.after := by
  intro all
  have step : ChunkStep .libnet [[7],[8]] (Connection.new 16) ([[7],[8]].flatMap encode) _ :=
    .chunk (List.prefix_refl _) (.inl rfl) (.inl rfl) (.call (by decide))
  have caught := all .libnet [[7],[8]] 16 _ _ (by decide) (by decide) (.step .nil step) _ (List.mem_singleton.mpr rfl)
  have whole : messages.split ([[7],[8]].flatMap encode) = ([[7],[8]],.waiting []) :=
    messages.split_whole fun body member => encode_next (by revert body; decide)
  have late := congrArg (List.length ∘ Prod.fst) (whole.symm.trans caught)
  revert late
  decide

end PcNetwork.NetEvent
