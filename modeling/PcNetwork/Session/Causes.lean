import PcNetwork.Session.ReadRoom

namespace PcNetwork.TcpSession

-- Answers that the Sends of a step have used up. A session that they leave dead was
-- dead before, or one of them is an error other than would-block.
def Spends (s t : TcpSession) : Prop :=
  ∃ used, s.socket.sends = used ++ t.socket.sends ∧ (t.state = .dead → s.state = .dead ∨ .failed ∈ used)

theorem Spends.same (sends : t.socket.sends = s.socket.sends) (state : t.state = .dead → s.state = .dead) : Spends s t :=
  ⟨[],by rw [sends]; rfl,fun dead => .inl (state dead)⟩

theorem Spends.trans (first : Spends s t) (second : Spends t u) : Spends s u := by
  obtain ⟨used,parts,cause⟩ := first
  obtain ⟨more,rest,later⟩ := second
  refine ⟨used ++ more,by rw [parts,rest,List.append_assoc],fun dead => ?_⟩
  rcases later dead with earlier | failed
  · exact (cause earlier).imp id fun failed => List.mem_append_left _ failed
  · exact .inr (List.mem_append_right _ failed)

theorem sendFrom_spends (s : TcpSession) (off len : Int) : Spends s (s.sendFrom off len).2 := by
  unfold sendFrom touch NetSocket.send
  dsimp only
  cases sends : s.socket.sends with
  | nil => exact .same rfl id
  | cons answer rest =>
    cases answer with
    | notWritable => exact ⟨[.notWritable],sends,.inl⟩
    | wouldBlock => exact ⟨[.wouldBlock],sends,.inl⟩
    | failed => exact ⟨[.failed],sends,fun _ => .inr (List.mem_singleton.mpr rfl)⟩
    | sent count =>
      refine ⟨[.sent count],?_,?_⟩
      · dsimp only
        rw [if_pos (Int.natCast_nonneg _)]
        exact sends
      · dsimp only
        rw [if_pos (Int.natCast_nonneg _)]
        exact .inl

theorem flushData_spends (s : TcpSession) : Spends s s.flushData := by
  unfold flushData
  split
  · exact .same rfl id
  · split
    · exact sendFrom_spends _ _ _
    · dsimp only
      split
      · exact sendFrom_spends _ _ _
      · split
        · exact sendFrom_spends _ _ _
        · exact (sendFrom_spends _ _ _).trans (sendFrom_spends _ _ _)

theorem sendPacket_spends (s : TcpSession) (packet : CmdPacket) (flush sys : Bool) :
    Spends s (s.sendPacket packet flush sys).2 := by
  by_cases live : s.state = .connected
  · have queued : Spends s (s.numbered.pushData (s.numbered.wire packet sys).bytes).2 := by
      rw [pushData_side]
      exact .same rfl id
    have noted : Spends s ((s.numbered.pushData (s.numbered.wire packet sys).bytes).2.noted packet sys) := by
      refine queued.trans ?_
      cases sys <;> exact .same rfl id
    rw [sendPacket_unfold live]
    dsimp only
    split
    · exact queued
    · split
      · exact noted.trans (flushData_spends _)
      · exact noted
  · rw [sendPacket_idle live]
    exact .same rfl id

theorem handleSysPacket_spends (s : TcpSession) (packet : CmdPacket) (noSeed : seedParam packet = none) :
    Spends s (s.handleSysPacket packet) := by
  have here : Spends s {s with calls := s.calls ++ [.handleSysPacket packet.readable]} := .same rfl id
  unfold seedParam at noSeed
  unfold handleSysPacket
  dsimp only
  split
  · exact here
  · rename_i type rest read
    rw [read] at noSeed
    dsimp only at noSeed
    split
    · split
      · exact here
      · exact here.trans (sendPacket_spends _ _ _ _)
    · split
      · split
        · exact here
        · exact .same rfl id
      · split
        · rename_i isSeed
          rw [if_pos isSeed] at noSeed
          split
          · exact here
          · rename_i long
            rw [long] at noSeed
            cases noSeed
        · exact here

theorem runSysPacket_spends (s : TcpSession) (packet : CmdPacket) (stack : List Frame) :
    Spends s (s.runSysPacket packet stack).session := by
  unfold runSysPacket
  cases found : seedParam packet with
  | none => exact handleSysPacket_spends s packet found
  | some seed => exact .same rfl nofun

theorem run_spends (s : TcpSession) (call : AppCall) : Spends s (s.run call) := by
  cases call with
  | sendPacket packet flush sys => exact sendPacket_spends _ _ _ _
  | sendSeed seed => exact (sendPacket_spends _ _ _ _).trans (.same rfl id)
  | setBufSize kb => exact .same rfl id
  | close => exact .same rfl nofun
  | connect initialized bound started =>
    unfold run connect getTime
    dsimp only
    split
    · exact .same rfl id
    · split
      · exact .same rfl id
      · split
        · exact .same rfl nofun
        · exact .same rfl id
  | attach => exact .same rfl nofun

-- What a Recv that returns -1 was told.
theorem recv_cause {k : NetSocket} (capacity : 1 ≤ c) (fails : (k.recv c).1 < 0) :
    k.recvs = .data [] :: (k.recv c).2.2.recvs ∨ k.recvs = .failed :: (k.recv c).2.2.recvs ∨
    k.recvs = .wouldBlock :: (k.recv c).2.2.recvs := by
  revert fails
  unfold NetSocket.recv
  cases recvs : k.recvs with
  | nil => intro fails; cases fails
  | cons answer rest =>
    cases answer with
    | notReadable => intro fails; cases fails
    | wouldBlock => exact fun _ => .inr (.inr rfl)
    | failed => exact fun _ => .inr (.inl rfl)
    | data bytes =>
      dsimp only
      by_cases empty : bytes = []
      · subst empty
        rw [List.take_nil,if_pos rfl]
        exact fun _ => .inl rfl
      · have count : (bytes.take c.toNat).length ≠ 0 := by
          have := List.length_pos_of_ne_nil empty
          rw [List.length_take]
          omega
        rw [if_neg fun none => count (congrArg List.length none)]
        intro fails
        dsimp only at fails
        omega

-- Why a step may leave the session dead. A Send or Recv of the step got the answer.
def SendFailed (s t : TcpSession) : Prop := ∃ used, s.socket.sends = used ++ t.socket.sends ∧ .failed ∈ used

def RecvGot (s t : TcpSession) (answer : RecvAnswer) : Prop := s.socket.recvs = answer :: t.socket.recvs

def BadHeader (s : TcpSession) : Prop := frames.next s.unread = .bad

def Genuine (t : Transition Machine MachineEvent) : Prop :=
  match t.event with
  | .process o =>
    let s := t.before.session.meet o
    (s.state = .connected ∧ s.timedOut) ∨ SendFailed s t.after.session ∨
    RecvGot s t.after.session (.data []) ∨ RecvGot s t.after.session .failed ∨
    (s.defProc.state = .waitingSeed ∧ BadHeader s.defProc)
  | .proceeds o => BadHeader t.before.session ∨ SendFailed (t.before.session.meet o) t.after.session
  | .calls o _ => SendFailed (t.before.session.meet o) t.after.session
  | .returns | .getPacket => False

def Dies (t : Transition Machine MachineEvent) : Prop :=
  t.before.session.state ≠ .dead ∧ t.after.session.state = .dead

-- A Recv of a tick that is told it would block.
def Blocked (t : Transition Machine MachineEvent) : Prop :=
  match t.event with
  | .process o => RecvGot (t.before.session.meet o) t.after.session .wouldBlock
  | .proceeds _ | .returns | .calls _ _ | .getPacket => False

theorem Spends.failed (spends : Spends s t) (alive : s.state ≠ .dead) (dead : t.state = .dead) : SendFailed s t := by
  obtain ⟨used,parts,cause⟩ := spends
  exact ⟨used,parts,(cause dead).resolve_left alive⟩

-- RecvPacket, and what is done with the packet.
theorem took_cause (ok : ReadOk s) (alive : s.state ≠ .dead) :
    (∃ t, s.recvPacket = (none,t) ∧ (t.state = .dead → BadHeader s)) ∨
    ∃ pkt t, s.recvPacket = (some pkt,t) ∧ t.state ≠ .dead ∧ t.socket = s.socket := by
  rcases recvPacket_parts ok with ⟨_,none⟩ | ⟨bad,none⟩ | ⟨raw,n,_,_,_,some⟩
  · exact .inl ⟨s,none,fun dead => absurd dead alive⟩
  · exact .inl ⟨_,none,fun _ => bad⟩
  · exact .inr ⟨_,_,some,alive,rfl⟩

theorem sysPacket_cause {s t : TcpSession} (alive : t.state ≠ .dead) (socket : t.socket = s.socket)
    (dead : (t.runSysPacket packet stack).session.state = .dead) :
    SendFailed s (t.runSysPacket packet stack).session := by
  obtain ⟨used,parts,failed⟩ := (runSysPacket_spends t packet stack).failed alive dead
  exact ⟨used,by rw [← parts,socket],failed⟩

theorem Takes.cause {m : Machine} {after : List Frame} (takes : Takes s stack after m) (ok : ReadOk s) (alive : s.state ≠ .dead)
    (dead : m.session.state = .dead) : BadHeader s ∨ SendFailed s m.session := by
  rcases took_cause ok alive with ⟨t,none,cause⟩ | ⟨pkt,t,some,live,socket⟩
  · cases takes with
    | ended took =>
      rw [none] at took
      cases took
      exact .inl (cause dead)
    | handled took | given took | kept took =>
      rw [none] at took
      cases took
  · cases takes with
    | ended took =>
      rw [some] at took
      cases took
    | handled took packet =>
      rw [some] at took
      cases took
      exact .inr (sysPacket_cause live socket dead)
    | given took | kept took =>
      rw [some] at took
      cases took
      exact absurd dead live

theorem runConnecting_alive {s : TcpSession} (trying : s.state = .connecting) : s.runConnecting.session.state ≠ .dead := by
  unfold runConnecting
  dsimp only
  split
  · nofun
  · split
    · nofun
    · split
      · exact fun dead => absurd (trying.symm.trans dead) nofun
      · split
        · exact fun dead => absurd (trying.symm.trans dead) nofun
        · nofun

-- Recv kills the session by what it is told, and uses up no answer of Send.
theorem readData_cause (ok : ReadOk s) (room : s.readLen < s.readBufSize) :
    s.readData.socket.sends = s.socket.sends ∧
    (s.readData.state = .dead → s.state = .dead ∨ RecvGot s s.readData (.data []) ∨ RecvGot s s.readData .failed ∨
      RecvGot s s.readData .wouldBlock) := by
  obtain ⟨side,times,last,filled,_,_⟩ := readData_parts ok
  have sends := (recv_parts s.socket (s.readBufSize-s.readLen)).2.1
  rw [filled]
  refine ⟨sends,?_⟩
  dsimp only
  split
  · rename_i fails
    exact fun _ => .inr (recv_cause (by omega) fails)
  · exact .inl

theorem defProc_cause (ok : ReadOk s) (room : s.readLen < s.readBufSize) (alive : s.state ≠ .dead) :
    (∃ used, s.socket.sends = used ++ s.defProc.socket.sends) ∧
    (s.defProc.state = .dead → (s.state = .connected ∧ s.timedOut) ∨ SendFailed s s.defProc ∨
      RecvGot s s.defProc (.data []) ∨ RecvGot s s.defProc .failed ∨ RecvGot s s.defProc .wouldBlock) := by
  by_cases live : s.state = .connected
  · by_cases late : s.timedOut
    · obtain ⟨times,last,proc⟩ := defProc_late live late
      rw [proc]
      exact ⟨⟨[],rfl⟩,fun _ => .inl ⟨live,late⟩⟩
    · obtain ⟨last,proc⟩ := defProc_inTime live late
      rw [proc]
      let start : TcpSession := {s with times := s.times.tail,lastSendTime := last}
      have side : start.flushData.toReadSide = s.toReadSide := by rw [flushData_toReceiver]
      have recvs : start.flushData.socket.recvs = s.socket.recvs :=
        congrArg SocketIn.recvs (flushData_outgoing (s := start) live).toSocketIn
      obtain ⟨used,parts,cause⟩ := flushData_spends start
      obtain ⟨sends,recv⟩ := readData_cause (ok.same side) (by rw [side]; exact room)
      refine ⟨⟨used,by rw [sends]; exact parts⟩,fun dead => .inr ?_⟩
      rcases recv dead with flushed | closed | failed | blocked
      · exact .inl ⟨used,by rw [sends]; exact parts,(cause flushed).resolve_left alive⟩
      · exact .inr (.inl (recvs.symm.trans closed))
      · exact .inr (.inr (.inl (recvs.symm.trans failed)))
      · exact .inr (.inr (.inr (recvs.symm.trans blocked)))
  · by_cases waits : s.state = .waitingSeed
    · have proc : s.defProc = s.readData := by simp [defProc,waits]
      obtain ⟨sends,recv⟩ := readData_cause ok room
      rw [proc]
      exact ⟨⟨[],sends.symm⟩,fun dead => .inr (.inr ((recv dead).resolve_left alive))⟩
    · have proc : s.defProc = s := if_pos ⟨live,waits⟩
      rw [proc]
      exact ⟨⟨[],rfl⟩,fun dead => absurd dead alive⟩

theorem runProcess_cause (ok : ReadOk s) (room : s.readLen < s.readBufSize) (alive : s.state ≠ .dead)
    (dead : s.runProcess.session.state = .dead) :
    (s.state = .connected ∧ s.timedOut) ∨ SendFailed s s.runProcess.session ∨
    RecvGot s s.runProcess.session (.data []) ∨ RecvGot s s.runProcess.session .failed ∨
    (s.defProc.state = .waitingSeed ∧ BadHeader s.defProc) ∨ RecvGot s s.runProcess.session .wouldBlock := by
  obtain ⟨⟨used,parts⟩,cause⟩ := defProc_cause ok room alive
  have read := defProc_read ok
  revert dead
  unfold runProcess
  dsimp only
  cases state : s.defProc.state with
  | connected => exact fun dead => absurd (state.symm.trans dead) nofun
  | dead =>
    intro _
    rcases cause state with late | send | closed | failed | blocked
    · exact .inl late
    · exact .inr (.inl send)
    · exact .inr (.inr (.inl closed))
    · exact .inr (.inr (.inr (.inl failed)))
    · exact .inr (.inr (.inr (.inr (.inr blocked))))
  | waitingSeed =>
    intro dead
    rcases (runWaiting_takes _).cause read (by rw [state]; nofun) dead with bad | ⟨more,rest,failed⟩
    · exact .inr (.inr (.inr (.inr (.inl ⟨rfl,bad⟩))))
    · exact .inr (.inl ⟨used ++ more,by rw [parts,rest,List.append_assoc],List.mem_append_right _ failed⟩)
  | connecting => exact fun dead => absurd dead (runConnecting_alive state)
  | zero => exact fun dead => absurd (state.symm.trans dead) nofun

theorem step_cause (inv : Room before) (step : MachineStep before event after) (free : ¬ Blocked ⟨before,event,after⟩)
    (dies : Dies ⟨before,event,after⟩) : Genuine ⟨before,event,after⟩ := by
  obtain ⟨alive,dead⟩ := dies
  have ok := inv.read
  cases step with
  | process s o =>
    have room : s.readLen < s.readBufSize := by
      rcases inv.room with roomy | loop | closing | ⟨died,_⟩
      · exact roomy.room
      · cases loop
      · cases closing
      · exact absurd died alive
    rcases runProcess_cause (s := s.meet o) (ok.same rfl) room alive dead with late | send | closed | failed | bad | blocked
    · exact .inl late
    · exact .inr (.inl send)
    · exact .inr (.inr (.inl closed))
    · exact .inr (.inr (.inr (.inl failed)))
    · exact .inr (.inr (.inr (.inr bad)))
    · exact absurd blocked free
  | loop s o rest => exact (runLoop_takes (s.meet o) rest).cause (ok.same rfl) alive dead
  | getting s o rest => exact (runGetting_takes (s.meet o) rest).cause (ok.same rfl) alive dead
  | closing s o rest => cases dead
  | returns s rest => exact absurd dead alive
  | calls _ o call => exact (run_spends _ call).failed alive dead
  | getPacket => exact absurd dead alive

-- In a run in which no Recv is told that it would block, a session dies of a genuine
-- failure only.
theorem dead_genuine (s : TcpSession) (path : Path MachineStep ⟨s.reset,[]⟩ taken last)
    (free : ∀ t ∈ taken, ¬ Blocked t) : ∀ t ∈ taken, Dies t → Genuine t := by
  have along := path.along Room
    (fun before event after => ¬ Blocked ⟨before,event,after⟩ → Dies ⟨before,event,after⟩ → Genuine ⟨before,event,after⟩)
    ((reset_roomy s).machine trivial) (fun _ _ _ => step_room) (fun _ _ _ => step_cause)
  exact fun t member => along t member (free t member)

-- A session after Attach, and a tick in which Recv gets one answer.
def attached : TcpSession := (new.reset.meet default).attach

def answers (answer : RecvAnswer) : Outside := {(default : Outside) with recvs := [answer]}

def answered (answer : RecvAnswer) : Transition Machine MachineEvent :=
  ⟨⟨attached,[]⟩,.process (answers answer),(attached.meet (answers answer)).runProcess⟩

theorem answered_path (answer : RecvAnswer) : ∃ first,
    Path MachineStep ⟨new.reset,[]⟩ ([first] ++ [answered answer]) (answered answer).after ∧ ¬ Blocked first := by
  have attach := MachineStep.calls ⟨new.reset,[]⟩ default .attach (.inl rfl) (fun _ => nofun)
  exact ⟨_,.step (.step .nil attach) (.process attached _),id⟩

theorem dead_genuine_closed : Genuine (answered (.data [])) := by
  obtain ⟨first,path,quiet⟩ := answered_path (.data [])
  refine dead_genuine new path ?_ _ (List.mem_append_right _ (List.mem_singleton.mpr rfl)) ⟨nofun,rfl⟩
  intro t member
  rcases List.mem_append.mp member with old | new
  · cases List.mem_singleton.mp old
    exact quiet
  · cases List.mem_singleton.mp new
    intro blocked
    cases (List.cons.inj blocked).1

-- select reports the socket as readable, but recv would block.
theorem dead_spurious :
    ¬ ∀ (s : TcpSession) (taken : List (Transition Machine MachineEvent)) (last : Machine),
      Path MachineStep ⟨s.reset,[]⟩ taken last → ∀ t ∈ taken, Dies t → Genuine t := by
  intro genuine
  obtain ⟨first,path,_⟩ := answered_path .wouldBlock
  have cause := genuine new _ _ path _ (List.mem_append_right _ (List.mem_singleton.mpr rfl)) ⟨nofun,rfl⟩
  rcases cause with ⟨_,late⟩ | ⟨used,parts,failed⟩ | closed | failed | ⟨waits,_⟩
  · exact absurd late (by decide)
  · have none : used = [] := (List.append_eq_nil_iff.mp parts.symm).1
    rw [none] at failed
    cases failed
  · cases (List.cons.inj closed).1
  · cases (List.cons.inj failed).1
  · cases waits

end PcNetwork.TcpSession
