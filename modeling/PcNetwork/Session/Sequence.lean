import PcNetwork.Session.Fields
import PcNetwork.Library.Path

namespace PcNetwork.TcpSession

-- Where the ring is too small for the bytes and too large to grow.
theorem resizeBuf_refused_iff (s : TcpSession) (min : Int) : (s.resizeBuf min).1 = false ↔ s.maxBufSize ≤ min := by
  unfold resizeBuf
  dsimp only
  by_cases large : min ≥ s.maxBufSize
  · rw [if_pos large]
    exact iff_of_true rfl large
  · rw [if_neg large]
    exact iff_of_false nofun large

theorem pushData_refused_iff (s : TcpSession) (buf : List UInt8) :
    (s.pushData buf).1 = false ↔ s.writeBufSize-s.writeLen ≤ buf.length ∧ s.maxBufSize ≤ s.writeLen+buf.length+1 := by
  have answer : ∀ r : Bool × TcpSession,
      (if r.1 = false then (false,r.2) else (true,pushLoop {r.2 with writeLen := r.2.writeLen+buf.length} buf)).1 = false ↔
      r.1 = false := by
    intro r
    split <;> simp [*]
  refine (answer (if (buf.length : Int) ≥ s.writeBufSize-s.writeLen then s.resizeBuf (s.writeLen+buf.length+1) else (true,s))).trans ?_
  by_cases tight : (buf.length : Int) ≥ s.writeBufSize-s.writeLen
  · rw [if_pos tight,resizeBuf_refused_iff]
    exact (and_iff_right tight).symm
  · rw [if_neg tight]
    exact iff_of_false nofun fun both => tight both.1

theorem sendFrom_seq (s : TcpSession) (off len : Int) : (s.sendFrom off len).2.seq = s.seq := by
  unfold sendFrom touch
  dsimp only
  split <;> rfl

theorem flushData_seq (s : TcpSession) : s.flushData.seq = s.seq := by
  unfold flushData
  split
  · rfl
  · split
    · exact sendFrom_seq s _ _
    · dsimp only
      split
      · exact sendFrom_seq s _ _
      · split
        · exact sendFrom_seq s _ _
        · exact (sendFrom_seq _ _ _).trans (sendFrom_seq s _ _)

theorem pushData_seq (s : TcpSession) (buf : List UInt8) : (s.pushData buf).2.seq = s.seq := by
  rw [pushData_side]

theorem noted_seq (s : TcpSession) (packet : CmdPacket) (sys : Bool) : (s.noted packet sys).seq = s.seq := by
  cases sys <;> rfl

-- PushData takes the frame of a packet.
def TakesFrame (s : TcpSession) (packet : CmdPacket) (sys : Bool) : Prop :=
  (s.frame packet sys).length < s.writeBufSize-s.writeLen ∨ s.writeLen+(s.frame packet sys).length+1 < s.maxBufSize

theorem pushData_takesFrame (s : TcpSession) (packet : CmdPacket) (sys : Bool) :
    (s.numbered.pushData (s.numbered.wire packet sys).bytes).1 = true ↔ s.TakesFrame packet sys := by
  have refused := pushData_refused_iff s.numbered (s.numbered.wire packet sys).bytes
  unfold TakesFrame
  constructor
  · intro taken
    by_contra tight
    rw [not_or,Int.not_lt,Int.not_lt] at tight
    rw [refused.mpr tight] at taken
    cases taken
  · intro room
    by_contra full
    obtain ⟨small,large⟩ := refused.mp (by simpa using full)
    exact room.elim (fun fits => absurd small (Int.not_le.mpr fits)) fun grows => absurd large (Int.not_le.mpr grows)

-- A connected session takes the next number for every packet, also for one that PushData
-- then refuses.
theorem sendPacket_seq {s : TcpSession} (live : s.state = .connected) (packet : CmdPacket) (flush sys : Bool) :
    (s.sendPacket packet flush sys).2.seq = s.numbered.seq ∧
    ((s.sendPacket packet flush sys).1 = true ↔ s.TakesFrame packet sys) := by
  rw [← pushData_takesFrame]
  have kept := pushData_seq s.numbered (s.numbered.wire packet sys).bytes
  rw [sendPacket_unfold live]
  dsimp only
  cases (s.numbered.pushData (s.numbered.wire packet sys).bytes).1 with
  | false => exact ⟨kept,Iff.rfl⟩
  | true =>
    refine ⟨?_,iff_of_true rfl rfl⟩
    cases flush with
    | false => exact (noted_seq _ packet sys).trans kept
    | true => exact (flushData_seq _).trans ((noted_seq _ packet sys).trans kept)

-- SendPacket calls, and between them anything that leaves m_seq as it is: the ring is
-- flushed, the connection is made or lost.
inductive SendEvent where
  | sendPacket (packet : CmdPacket) (flush sys : Bool)
  | other

inductive SendStep : TcpSession → SendEvent → TcpSession → Prop where
  | sendPacket : SendStep s (.sendPacket packet flush sys) (s.sendPacket packet flush sys).2
  | other (same : t.seq = s.seq) : SendStep s .other t

-- The sequence number of the frame that a call has appended.
def appended (s : TcpSession) : SendEvent → List UInt16
  | .sendPacket packet flush sys => if (s.sendPacket packet flush sys).1 then [(s.numbered.wire packet sys).pktSeq] else []
  | .other => []

def Fails (s : TcpSession) : SendEvent → Prop
  | .sendPacket packet flush sys => (s.sendPacket packet flush sys).1 = false
  | .other => False

-- A connected session has room for the frame.
def Fitting (s : TcpSession) : SendEvent → Prop
  | .sendPacket packet _ sys => s.state = .connected → s.TakesFrame packet sys
  | .other => True

-- The i-th number, and m_seq when n numbers have been given.
def number (i : Nat) : UInt16 := UInt16.ofNat (i % maxNetPacketSeq.toNat+1)

def given : Nat → UInt16
  | 0 => 0
  | n+1 => number n

theorem toNat_number (i : Nat) : (number i).toNat = i % 65000+1 := by
  have small : i % maxNetPacketSeq.toNat+1 < 2^16 := by
    have bound := Nat.mod_lt i (by decide : 0 < maxNetPacketSeq.toNat)
    have limit : maxNetPacketSeq.toNat = 65000 := rfl
    omega
  exact UInt16.toNat_ofNat_of_lt' small

theorem numbered_number {s : TcpSession} (seq : s.seq = given n) : s.numbered.seq = number n := by
  have limit : maxNetPacketSeq.toNat = 65000 := rfl
  apply UInt16.toNat_inj.mp
  unfold numbered
  dsimp only
  rw [toNat_number,seq]
  cases n with
  | zero => rfl
  | succ n =>
    have count : (number n+1).toNat = n % 65000+2 := by
      rw [UInt16.toNat_add,toNat_number]
      have bound := Nat.mod_lt n (by decide : 0 < 65000)
      have one : (1 : UInt16).toNat = 1 := rfl
      omega
    show (if number n+1 > maxNetPacketSeq then 1 else number n+1).toNat = _
    by_cases beyond : number n+1 > maxNetPacketSeq
    · have greater := UInt16.lt_iff_toNat_lt.mp beyond
      rw [if_pos beyond]
      show 1 = _
      omega
    · have within := Nat.not_lt.mp fun less => beyond (UInt16.lt_iff_toNat_lt.mpr less)
      rw [if_neg beyond]
      omega

theorem wire_seq (s : TcpSession) (packet : CmdPacket) (sys : Bool) : (s.wire packet sys).pktSeq = s.seq := by
  unfold wire
  cases sys <;> cases encrypt : s.bEncrypt <;> cases compress : s.bCompress <;> rfl

-- One step gives at most the next number.
theorem sendStep_given (step : SendStep s event t) (seq : s.seq = given n) (room : s.Fitting event) :
    (s.appended event = [] ∧ t.seq = given n ∨ s.appended event = [number n] ∧ t.seq = given (n+1)) ∧
    (s.Fails event → t.seq = s.seq) := by
  cases step with
  | other same => exact ⟨.inl ⟨rfl,same.trans seq⟩,fun _ => same⟩
  | @sendPacket packet flush sys =>
    by_cases live : s.state = .connected
    · obtain ⟨kept,taken⟩ := sendPacket_seq live packet flush sys
      have sent := taken.mpr (room live)
      refine ⟨.inr ⟨?_,kept.trans (numbered_number seq)⟩,fun failed => ?_⟩
      · simp [appended,sent,wire_seq,numbered_number seq]
      · rw [Fails,sent] at failed
        cases failed
    · simp [appended,Fails,sendPacket_idle live,seq]

theorem run_given (path : Path SendStep origin taken last) (start : origin.seq = 0) (room : ∀ t ∈ taken, t.before.Fitting t.event) :
    ∃ n, (taken.flatMap fun t => t.before.appended t.event) = (List.range n).map number ∧ last.seq = given n ∧
      ∀ t ∈ taken, t.before.Fails t.event → t.after.seq = t.before.seq := by
  induction path with
  | nil => exact ⟨0,by simp,start,by simp⟩
  | @step earlier middle event after _ step ih =>
    obtain ⟨n,numbers,seq,kept⟩ := ih fun t member => room t (List.mem_append_left _ member)
    obtain ⟨adds,failed⟩ := sendStep_given step seq (room _ (List.mem_append_right _ (List.mem_singleton.mpr rfl)))
    have all : ∀ t ∈ earlier ++ [⟨middle,event,after⟩], t.before.Fails t.event → t.after.seq = t.before.seq := by
      intro t member
      rcases List.mem_append.mp member with early | late
      · exact kept t early
      · cases List.mem_singleton.mp late
        exact failed
    rcases adds with ⟨none,same⟩ | ⟨one,next⟩
    · refine ⟨n,?_,same,all⟩
      simp [numbers,none]
    · refine ⟨n+1,?_,next,all⟩
      simp [numbers,one,List.range_succ]

-- No number is left out, and a call that fails leaves the next one to the next call, as
-- long as no frame is too large for the ring of a connected session.
theorem sequence_gap_free (path : Path SendStep origin taken last) (start : origin.seq = 0)
    (room : ∀ t ∈ taken, t.before.Fitting t.event) :
    let numbers := taken.flatMap fun t => t.before.appended t.event
    numbers = (List.range numbers.length).map number ∧
    ∀ t ∈ taken, t.before.Fails t.event → t.after.seq = t.before.seq := by
  obtain ⟨n,numbers,_,kept⟩ := run_given path start room
  dsimp only
  rw [numbers,List.length_map,List.length_range]
  exact ⟨rfl,kept⟩

-- A packet, and behind it another one.
theorem sequence_gap_free_two : ∃ taken last, Path SendStep new.attach taken last ∧
    let numbers := taken.flatMap fun t => t.before.appended t.event
    numbers = [1,2] ∧ numbers = (List.range numbers.length).map number ∧
    ∀ t ∈ taken, t.before.Fails t.event → t.after.seq = t.before.seq := by
  let packet := CmdPacket.new.beginWrite.write (.byte 7)
  let middle := (new.attach.sendPacket packet false false).2
  have room : new.attach.TakesFrame packet false := .inl (by decide)
  have more : middle.TakesFrame packet false := .inl (by decide)
  have live : middle.state = .connected := rfl
  obtain ⟨seq,sent⟩ := sendPacket_seq (rfl : new.attach.state = .connected) packet false false
  obtain ⟨_,again⟩ := sendPacket_seq live packet true false
  have started : new.attach.numbered.seq = number 0 := numbered_number rfl
  have next : middle.numbered.seq = number 1 := numbered_number (seq.trans started)
  have one : new.attach.appended (.sendPacket packet false false) = [1] := by
    simp only [appended,sent.mpr room,if_true,wire_seq,started]
    decide
  have two : middle.appended (.sendPacket packet true false) = [2] := by
    simp only [appended,again.mpr more,if_true,wire_seq,next]
    decide
  have first : SendStep new.attach (.sendPacket packet false false) middle := .sendPacket
  have second : SendStep middle (.sendPacket packet true false) _ := .sendPacket
  have path := Path.step (.step .nil first) second
  refine ⟨_,_,path,?_,sequence_gap_free path rfl ?_⟩
  · simp [one,two]
  · intro t member
    rcases List.mem_append.mp member with early | late
    · cases List.mem_singleton.mp early
      exact fun _ => room
    · cases List.mem_singleton.mp late
      exact fun _ => more

-- The largest packet there is.
theorem largest_packet : ∃ packet : CmdPacket, packet.Written ∧ packet.getDataSize = maxCmdPacketSize := by
  obtain ⟨bytes,count⟩ : ∃ bytes : List UInt8, bytes.length = 16382 := ⟨List.replicate 16382 0,List.length_replicate⟩
  have sized : CmdPacket.Sized (CmdPacket.new.setSize maxCmdPacketSize).2 :=
    ⟨by decide,by decide,congrArg Int.ofNat (List.length_replicate : (List.replicate 16384 (0 : UInt8)).length = 16384)⟩
  have start := CmdPacket.setSize_writing CmdPacket.new (by decide : (0 : Int) ≤ maxCmdPacketSize) (Int.le_refl _)
  have size : (CmdPacket.new.setSize maxCmdPacketSize).2.maxSize = maxCmdPacketSize := rfl
  generalize (CmdPacket.new.setSize maxCmdPacketSize).2 = blank at sized start size
  have fits : blank.beginWrite.len+(CmdPacket.WriteOp.binary bytes).size ≤ blank.beginWrite.maxSize := by
    simp [CmdPacket.WriteOp.size,CmdPacket.beginWrite,size,count,maxCmdPacketSize]
  have len := (CmdPacket.tryWrite_grew start fits).len
  refine ⟨_,⟨blank,[.binary bytes],sized,?_,rfl⟩,?_⟩
  · intro op member
    cases List.mem_singleton.mp member
    show maxCmdPacketSize+(bytes.length : Int) < 2^31
    unfold maxCmdPacketSize
    omega
  · rw [← CmdPacket.write_tryWrite] at len
    rw [List.foldl_cons,List.foldl_nil,CmdPacket.getDataSize,len]
    simp [CmdPacket.WriteOp.size,CmdPacket.beginWrite,count,maxCmdPacketSize]

-- It is refused, and the packet behind it has the number 2.
theorem sequence_gap :
    ¬ ∀ (origin : TcpSession) (taken : List (Transition TcpSession SendEvent)) (last : TcpSession),
      Path SendStep origin taken last → origin.seq = 0 →
      let numbers := taken.flatMap fun t => t.before.appended t.event
      numbers = (List.range numbers.length).map number ∧
      ∀ t ∈ taken, t.before.Fails t.event → t.after.seq = t.before.seq := by
  intro gapless
  obtain ⟨large,written,size⟩ := largest_packet
  have live : (new.attach.setBufSize 16).state = .connected := rfl
  have length : ((new.attach.setBufSize 16).frame large false).length = 16389 := by
    have headed := (wire_headed (new.attach.setBufSize 16).numbered false written.writing).length_bytes
    rwa [size] at headed
  obtain ⟨seq,taken⟩ := sendPacket_seq live large false false
  have refused : ((new.attach.setBufSize 16).sendPacket large false false).1 = false := by
    have full : ¬ (new.attach.setBufSize 16).TakesFrame large false := by
      unfold TakesFrame
      rw [length]
      decide
    simpa [full] using taken
  obtain ⟨t,same,alive,room⟩ : ∃ t : TcpSession, t.seq = number 0 ∧ t.state = .connected ∧
      t.TakesFrame (CmdPacket.new.beginWrite.write (.byte 7)) false :=
    ⟨{new.attach with seq := number 0},rfl,rfl,.inl (by decide)⟩
  have again : SendStep ((new.attach.setBufSize 16).sendPacket large false false).2 .other t := .other (same.trans seq.symm)
  have byte : SendStep t (.sendPacket (CmdPacket.new.beginWrite.write (.byte 7)) false false) _ := .sendPacket
  have first : (new.attach.setBufSize 16).appended (.sendPacket large false false) = [] := by simp [appended,refused]
  have between : ∀ s : TcpSession, s.appended .other = [] := fun _ => rfl
  have second : t.appended (.sendPacket (CmdPacket.new.beginWrite.write (.byte 7)) false false) = [number 1] := by
    have sent := (sendPacket_seq alive (CmdPacket.new.beginWrite.write (.byte 7)) false false).2.mpr room
    simp [appended,sent,wire_seq,numbered_number (n := 1) same]
  have numbers := (gapless _ _ _ (.step (.step (.step .nil .sendPacket) again) byte) rfl).1
  simp only [List.nil_append,List.cons_append,List.flatMap_cons,List.flatMap_nil,first,between,second,List.append_nil] at numbers
  exact absurd numbers (by decide)

end PcNetwork.TcpSession
