import PcNetwork.NetSelect.SelectService
import PcNetwork.Library.Path

namespace PcNetwork.NetSelect.SelectService

-- The socket of an online peer.
def Owned (s : SelectService) (sd : Int) : Prop := ∃ i ∈ s.onlinePeerSet, (s.peers i).socket = sd

structure Books (s : SelectService) : Prop where
  once : s.onlinePeerSet.Nodup
  online : ∀ i, i ∈ s.onlinePeerSet ↔ i < maxPeerNum ∧ (s.peers i).socket ≠ invalidSocket
  reads : ∀ sd, (sd ∈ s.readBak ∧ sd ≠ s.listenSocket) ↔ s.Owned sd
  writes : ∀ sd ∈ s.writeBak, s.Owned sd
  valid : invalidSocket ∉ s.readBak ∧ invalidSocket ∉ s.readUse ∧ invalidSocket ∉ s.writeBak ∧ invalidSocket ∉ s.writeUse
  handed : ∀ sd ∈ s.registered, s.Owned sd ∨ s.closed.count sd = 1

-- What an operation that neither registers nor closes a socket may change.
structure Quiet (s t : SelectService) : Prop where
  listenSocket : t.listenSocket = s.listenSocket
  readBak : t.readBak = s.readBak
  readUse : t.readUse = s.readUse
  online : t.onlinePeerSet = s.onlinePeerSet
  registered : t.registered = s.registered
  closed : t.closed = s.closed
  socket : ∀ i, (t.peers i).socket = (s.peers i).socket
  serial : ∀ i, (t.peers i).serial = (s.peers i).serial
  writeBak : ∀ sd ∈ t.writeBak, sd ∈ s.writeBak ∨ (sd ≠ invalidSocket ∧ ∃ i < maxPeerNum, (s.peers i).socket = sd)
  writeUse : ∀ sd ∈ t.writeUse, sd ∈ s.writeUse

theorem Quiet.refl (s : SelectService) : Quiet s s :=
  ⟨rfl,rfl,rfl,rfl,rfl,rfl,fun _ => rfl,fun _ => rfl,fun _ => .inl,fun _ => id⟩

theorem Quiet.trans (first : Quiet s t) (second : Quiet t u) : Quiet s u where
  listenSocket := second.listenSocket.trans first.listenSocket
  readBak := second.readBak.trans first.readBak
  readUse := second.readUse.trans first.readUse
  online := second.online.trans first.online
  registered := second.registered.trans first.registered
  closed := second.closed.trans first.closed
  socket i := (second.socket i).trans (first.socket i)
  serial i := (second.serial i).trans (first.serial i)
  writeBak sd member := by
    rcases second.writeBak sd member with old | ⟨some,i,bound,same⟩
    · exact first.writeBak sd old
    · exact .inr ⟨some,i,bound,(first.socket i).symm.trans same⟩
  writeUse sd member := first.writeUse sd (second.writeUse sd member)

theorem Quiet.owned (quiet : Quiet s t) : t.Owned sd ↔ s.Owned sd := by
  unfold Owned
  rw [quiet.online]
  simp only [quiet.socket]

theorem Books.quiet (books : Books s) (quiet : Quiet s t) : Books t where
  once := quiet.online ▸ books.once
  online i := by rw [quiet.online,quiet.socket]; exact books.online i
  reads sd := by rw [quiet.readBak,quiet.listenSocket,quiet.owned]; exact books.reads sd
  writes sd member := by
    rw [quiet.owned]
    rcases quiet.writeBak sd member with old | ⟨some,i,bound,same⟩
    · exact books.writes sd old
    · exact ⟨i,(books.online i).mpr ⟨bound,same ▸ some⟩,same⟩
  valid := by
    refine ⟨quiet.readBak ▸ books.valid.1,quiet.readUse ▸ books.valid.2.1,fun member => ?_,
      fun member => books.valid.2.2.2 (quiet.writeUse _ member)⟩
    rcases quiet.writeBak _ member with old | ⟨some,_⟩
    · exact books.valid.2.2.1 old
    · exact some rfl
  handed sd member := by
    rw [quiet.owned,quiet.closed]
    exact books.handed sd (quiet.registered ▸ member)

-- A call of closePeer that finds another connection in the slot, or none.
def Stale (s : SelectService) : Call → Prop
  | .closePeer index serial => (s.peers index).serial ≠ serial ∨ (s.peers index).socket = invalidSocket
  | .send _ _ _ | .pop _ => True

def callSize : Call → Nat
  | .send _ _ buf => buf.length
  | .closePeer _ _ | .pop _ => 0

def size (calls : List Call) : Nat := (calls.map callSize).sum

-- The bytes that the callbacks to come are going to send.
def load (s : SelectService) : Nat := (s.scripts.map fun script => size script.calls).sum

-- The write buffers have room for `bytes` more.
def Room (s : SelectService) (bytes : Nat) : Prop :=
  ∀ i, (s.peers i).writeBuf.Ok ∧ (s.peers i).writeBuf.writeIndex.toNat+bytes < 2^31

-- No callback to come closes a peer, and no send to come overflows a write buffer.
structure Calm (s : SelectService) : Prop where
  gentle : ∀ script ∈ s.scripts, 0 ≤ script.ret ∧ ∀ call ∈ script.calls, Stale s call
  room : Room s s.load

theorem Stale.quiet (stale : Stale s call) (quiet : Quiet s t) : Stale t call := by
  cases call with
  | closePeer index serial =>
    have apart : (s.peers index).serial ≠ serial ∨ (s.peers index).socket = invalidSocket := stale
    rw [← quiet.socket,← quiet.serial] at apart
    exact apart
  | send | pop => trivial

theorem getPeer_outside {index : Nat} (outside : index ≥ maxPeerNum) : getPeer index s = .error .nullPointer s :=
  if_pos outside

theorem getPeer_inside {index : Nat} (inside : ¬ index ≥ maxPeerNum) : getPeer index s = .ok (s.peers index) s :=
  if_neg inside

theorem closePeer_stale {index : Nat} {serial : UInt64} (stale : Stale s (.closePeer index serial)) :
    closePeer index serial s = .ok () s ∨ closePeer index serial s = .error .nullPointer s := by
  have apart : (s.peers index).serial ≠ serial ∨ (s.peers index).socket = invalidSocket := stale
  have start : closePeer index serial s = closeTo s.scripts.length index serial s := rfl
  rw [start]
  unfold closeTo
  by_cases outside : index ≥ maxPeerNum
  · rw [bind_error (getPeer_outside outside)]
    exact .inr rfl
  · rw [bind_ok (getPeer_inside outside),if_pos apart]
    exact .inl rfl

theorem setPeer_quiet (s : SelectService) (index : Nat) {p : Peer} (socket : p.socket = (s.peers index).socket)
    (serial : p.serial = (s.peers index).serial) : Quiet s (s.setPeer index p) := by
  refine ⟨rfl,rfl,rfl,rfl,rfl,rfl,fun i => ?_,fun i => ?_,fun _ => .inl,fun _ => id⟩
  · unfold setPeer
    dsimp only
    split
    · rename_i same; rw [same]; exact socket
    · rfl
  · unfold setPeer
    dsimp only
    split
    · rename_i same; rw [same]; exact serial
    · rfl

theorem onReadBuf_quiet (s : SelectService) (index : Nat) (f : Throwing SockBuf α) :
    ∃ b, final (onReadBuf index f s) = s.setPeer index {s.peers index with readBuf := b} := by
  unfold onReadBuf
  split <;> exact ⟨_,rfl⟩

theorem Room.readBuf (room : Room s k) (index : Nat) (b : SockBuf) :
    Room (s.setPeer index {s.peers index with readBuf := b}) k := by
  intro i
  unfold setPeer
  dsimp only
  split
  · exact room index
  · exact room i

theorem Room.writeBuf (room : Room s k) (index : Nat) {b : SockBuf} (ok : b.Ok) (bound : b.writeIndex.toNat+j < 2^31)
    (less : j ≤ k) : Room (s.setPeer index {s.peers index with writeBuf := b}) j := by
  intro i
  unfold setPeer
  dsimp only
  split
  · exact ⟨ok,bound⟩
  · obtain ⟨fine,fits⟩ := room i
    exact ⟨fine,by omega⟩

-- How a piece of a callback ends. In a callback without a buffer nothing throws.
structure Ran (s : SelectService) (k : Nat) (buffer : Option Nat) (r : EStateM.Result Fault SelectService α) : Prop where
  quiet : Quiet s (final r)
  room : Room (final r) k
  scripts : (final r).scripts = s.scripts
  ends : buffer = none → ∀ text t, r ≠ .error (.exception text) t

theorem send_ran {buf : List UInt8} (room : Room s (buf.length+k)) (index : Nat) (serial : UInt64) (buffer : Option Nat) :
    Ran s k buffer (send index serial buf s) := by
  have less : Room s k := fun i => ⟨(room i).1,by have := (room i).2; omega⟩
  unfold send
  by_cases outside : index ≥ maxPeerNum
  · rw [bind_error (getPeer_outside outside)]
    exact ⟨.refl s,less,rfl,fun _ _ _ => nofun⟩
  · rw [bind_ok (getPeer_inside outside)]
    by_cases refused : (s.peers index).serial ≠ serial ∨ (s.peers index).socket ≤ 0
    · rw [if_pos refused]
      exact ⟨.refl s,less,rfl,fun _ _ _ => nofun⟩
    · rw [if_neg refused]
      rw [not_or] at refused
      obtain ⟨ok,fits⟩ := room index
      have below : (s.peers index).writeBuf.writeIndex.toNat+buf.length < 2^31 := by omega
      obtain ⟨c,ran,fine,_,grown⟩ := SockBuf.apendBuf_ok ok below
      have pushed : onWriteBuf index (SockBuf.push buf) s = .ok () (s.setPeer index {s.peers index with writeBuf := c}) := by
        unfold onWriteBuf SockBuf.push
        rw [ran]
      rw [bind_ok pushed]
      have quiet := setPeer_quiet s index (p := {s.peers index with writeBuf := c}) rfl rfl
      have valid : (s.peers index).socket ≠ invalidSocket := by unfold invalidSocket; omega
      refine ⟨⟨rfl,rfl,rfl,rfl,rfl,rfl,quiet.socket,quiet.serial,fun sd member => ?_,fun _ => id⟩,?_,rfl,fun _ _ _ => nofun⟩
      · have inside : sd ∈ fdSet (s.peers index).socket s.writeBak := member
        unfold fdSet at inside
        split at inside
        · exact .inl inside
        · split at inside
          · rcases List.mem_append.mp inside with old | new
            · exact .inl old
            · rw [List.mem_singleton.mp new]
              exact .inr ⟨valid,index,Nat.not_le.mp outside,rfl⟩
          · exact .inl inside
      · exact Room.writeBuf room index fine (by omega) (by omega)

theorem runCalls_ran {calls : List Call} (gentle : ∀ call ∈ calls, Stale s call) (room : Room s (size calls+k))
    (buffer : Option Nat) : Ran s k buffer (runCalls closePeer buffer calls s) := by
  induction calls generalizing s with
  | nil =>
    rw [size,List.map_nil,List.sum_nil,Nat.zero_add] at room
    exact ⟨.refl s,room,rfl,fun _ _ _ => nofun⟩
  | cons call rest ih =>
    have total : size (call :: rest) = callSize call+size rest := rfl
    rw [total,Nat.add_assoc] at room
    have first : Ran s (size rest+k) buffer (runCall closePeer buffer call s) := by
      cases call with
      | send index serial buf => exact send_ran room index serial buffer
      | closePeer index serial =>
        have kept : Room s (size rest+k) := by rw [callSize,Nat.zero_add] at room; exact room
        rcases closePeer_stale (gentle _ List.mem_cons_self) with same | null
        · show Ran s _ buffer (closePeer index serial s)
          rw [same]
          exact ⟨.refl s,kept,rfl,fun _ _ _ => nofun⟩
        · show Ran s _ buffer (closePeer index serial s)
          rw [null]
          exact ⟨.refl s,kept,rfl,fun _ _ _ => nofun⟩
      | pop len =>
        have kept : Room s (size rest+k) := by rw [callSize,Nat.zero_add] at room; exact room
        cases buffer with
        | none => exact ⟨.refl s,kept,rfl,fun _ _ _ => nofun⟩
        | some index =>
          obtain ⟨b,after⟩ := onReadBuf_quiet s index (SockBuf.pop len)
          have ends : final (runCall closePeer (some index) (.pop len) s) = s.setPeer index {s.peers index with readBuf := b} :=
            (final_bind_pure _ _ s).trans after
          exact ⟨ends ▸ setPeer_quiet s index rfl rfl,ends ▸ kept.readBuf index b,by rw [ends]; rfl,nofun⟩
    unfold runCalls
    cases ran : runCall closePeer buffer call s with
    | ok a t =>
      rw [ran] at first
      rw [bind_ok ran]
      have later := ih (fun c member => (gentle c (List.mem_cons_of_mem _ member)).quiet first.quiet) first.room
      exact ⟨first.quiet.trans later.quiet,later.room,later.scripts.trans first.scripts,later.ends⟩
    | error e t =>
      rw [ran] at first
      rw [bind_error ran]
      refine ⟨first.quiet,fun i => ⟨(first.room i).1,?_⟩,first.scripts,fun none text u same => ?_⟩
      · have := (first.room i).2; omega
      · cases same
        exact first.ends none text t rfl

theorem Ran.calm {r : EStateM.Result Fault SelectService α} (ran : Ran s s.load buffer r)
    (gentle : ∀ script ∈ s.scripts, 0 ≤ script.ret ∧ ∀ call ∈ script.calls, Stale s call) : Calm (final r) := by
  have load : (final r).load = s.load := by unfold load; rw [ran.scripts]
  refine ⟨fun script member => ?_,load ▸ ran.room⟩
  rw [ran.scripts] at member
  obtain ⟨positive,stale⟩ := gentle script member
  exact ⟨positive,fun call inside => (stale call inside).quiet ran.quiet⟩

-- A piece of the service that neither registers nor closes a socket.
structure Still (s t : SelectService) : Prop where
  quiet : Quiet s t
  calm : Calm t

theorem Still.refl (calm : Calm s) : Still s s := ⟨.refl s,calm⟩

theorem Still.trans (first : Still s t) (second : Still t u) : Still s u :=
  ⟨first.quiet.trans second.quiet,second.calm⟩

-- The callback that comes next takes its script off the list.
theorem callback_still (calm : Calm s) (buffer : Option Nat) (c : Callback) :
    Keeps Still (0 ≤ ·) (callback closePeer buffer c) s ∧
    (buffer = none → ∀ text t, callback closePeer buffer c s ≠ .error (.exception text) t) := by
  let t : SelectService := {s with scripts := s.scripts.tail,callbacks := s.callbacks ++ [c]}
  have popped : Quiet s t := ⟨rfl,rfl,rfl,rfl,rfl,rfl,fun _ => rfl,fun _ => rfl,fun _ => .inl,fun _ => id⟩
  have start : callback closePeer buffer c s =
      (runCalls closePeer buffer (s.scripts.headD default).calls >>= fun _ => pure (s.scripts.headD default).ret) t := rfl
  have head : 0 ≤ (s.scripts.headD default).ret ∧ (∀ call ∈ (s.scripts.headD default).calls, Stale t call) ∧
      Room t (size (s.scripts.headD default).calls+t.load) ∧
      ∀ script ∈ t.scripts, 0 ≤ script.ret ∧ ∀ call ∈ script.calls, Stale t call := by
    obtain ⟨gentle,room⟩ := calm
    unfold load at room ⊢
    cases scripts : s.scripts with
    | nil =>
      have none_left : t.scripts = [] := by show s.scripts.tail = []; rw [scripts]; rfl
      rw [scripts] at room
      rw [none_left]
      exact ⟨Int.le_refl _,nofun,room,nofun⟩
    | cons script rest =>
      have left : t.scripts = rest := by show s.scripts.tail = rest; rw [scripts]; rfl
      rw [scripts] at room gentle
      rw [left]
      obtain ⟨positive,stale⟩ := gentle script List.mem_cons_self
      refine ⟨positive,fun call member => (stale call member).quiet popped,room,fun later member => ?_⟩
      obtain ⟨positive,stale⟩ := gentle later (List.mem_cons_of_mem _ member)
      exact ⟨positive,fun call inside => (stale call inside).quiet popped⟩
  obtain ⟨positive,stale,room,gentle⟩ := head
  have ran := runCalls_ran stale room buffer
  refine ⟨⟨?_,fun ret u ended => ?_⟩,fun none text u threw => ?_⟩
  · rw [start,final_bind_pure]
    exact ⟨popped.trans ran.quiet,ran.calm gentle⟩
  · rw [start] at ended
    cases calls : runCalls closePeer buffer (s.scripts.headD default).calls t with
    | ok _ v =>
      rw [bind_ok calls] at ended
      cases ended
      exact positive
    | error e v =>
      rw [bind_error calls] at ended
      cases ended
  · rw [start] at threw
    cases calls : runCalls closePeer buffer (s.scripts.headD default).calls t with
    | ok _ v =>
      rw [bind_ok calls] at threw
      cases threw
    | error e v =>
      rw [bind_error calls] at threw
      cases threw
      exact ran.ends none text u calls

end PcNetwork.NetSelect.SelectService
