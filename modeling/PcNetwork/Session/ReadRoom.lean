import PcNetwork.Session.Machine

namespace PcNetwork.TcpSession

-- The capacities that the Recvs of a tick are given: ReadData calls Recv once, behind
-- the bytes that it has moved to the front.
def readCapacity (s : TcpSession) : Int := s.compact.readBufSize-s.compact.readLen

def defProcCapacities (s : TcpSession) : List Int :=
  if s.state ≠ .connected ∧ s.state ≠ .waitingSeed then [] else
  if s.state = .connected then
    let (now,s) := s.getTime
    let s := if now-s.lastSendTime > netKeepAliveInterval then {s with lastSendTime := now} else s
    if now-s.lastRecvTime > netTimeout then [] else [s.flushData.readCapacity]
  else [s.readCapacity]

def capacities (t : Transition Machine MachineEvent) : List Int :=
  match t.event with
  | .process o => (t.before.session.meet o).defProcCapacities
  | .proceeds _ | .returns | .calls _ _ | .getPacket => []

-- A full buffer begins with a whole frame, or with a header that is invalid.
theorem more_room (ok : ReadOk s) (more : frames.next s.unread = .more) : s.readLen < s.readBufSize := by
  by_contra full
  have length := ok.length_unread
  have limit : maxBufferSize = 16389 := rfl
  have count : (s.unread.length : Int) = 16389 := by
    have := ok.size_eq
    have := ok.inside
    have := ok.pos_nonneg
    omega
  have waits : nextFrame s.unread = .more := more
  generalize s.unread = bytes at waits count
  have max : maxCmdPacketSize = 16384 := rfl
  revert waits
  unfold nextFrame NetPacket.beginRead netPacketHeadSize
  rw [if_neg (by omega)]
  rcases bytes with _ | ⟨flag,_ | ⟨s0,_ | ⟨s1,_ | ⟨d0,_ | ⟨d1,rest⟩⟩⟩⟩⟩
  all_goals try (simp only [List.length_cons,List.length_nil] at count; omega)
  dsimp only
  split
  · intro waits; cases waits
  · split
    · intro waits; cases waits
    · split
      · omega
      · dsimp only
        rw [if_pos (by omega)]
        intro waits
        cases waits

theorem capacity_same (s : TcpSession) : s.readCapacity = s.readBufSize-s.readLen := by
  unfold readCapacity compact
  split
  · rfl
  · split <;> rfl

-- It is what Recv is given.
theorem readData_capacity (ok : ReadOk s) : s.readData.socket = (s.socket.recv s.readCapacity).2.2 := by
  obtain ⟨side,times,last,filled,_,_⟩ := readData_parts ok
  rw [filled,capacity_same]

theorem defProc_capacity {s : TcpSession} (room : s.readLen < s.readBufSize) : ∀ c ∈ s.defProcCapacities, 1 ≤ c := by
  have flushed : ∀ t : TcpSession, t.toReadSide = s.toReadSide → ∀ c ∈ [t.flushData.readCapacity], 1 ≤ c := by
    intro t same c member
    cases List.mem_singleton.mp member
    rw [capacity_same,flushData_toReceiver,same]
    omega
  unfold defProcCapacities getTime
  split
  · nofun
  · split
    · dsimp only
      split
      · split
        · nofun
        · exact flushed _ rfl
      · split
        · nofun
        · exact flushed _ rfl
    · intro c member
      cases List.mem_singleton.mp member
      rw [capacity_same]
      omega

-- Only Recv fills the buffer.
structure Keeps (s t : TcpSession) : Prop where
  read : ReadOk t
  less : t.readLen ≤ s.readLen
  size : t.readBufSize = s.readBufSize

theorem Keeps.same (ok : ReadOk s) (same : t.toReadSide = s.toReadSide) : Keeps s t :=
  ⟨ok.same same,by rw [same],by rw [same]⟩

theorem Keeps.room (keeps : Keeps s t) (room : s.readLen < s.readBufSize) : t.readLen < t.readBufSize := by
  obtain ⟨_,less,size⟩ := keeps
  omega

theorem reset_keeps (ok : ReadOk s) : Keeps s s.reset :=
  ⟨reset_read s,ok.len_nonneg,ok.size_eq.symm⟩

theorem run_keeps (ok : ReadOk s) (call : AppCall) : Keeps s (s.run call) := by
  cases call with
  | sendPacket packet flush sys =>
    have sent := sendPacket_outgoing s packet flush sys
    exact .same ok (by rw [run,sent.toReceiver])
  | sendSeed seed =>
    have sent := sendPacket_outgoing s (sysPacket sysPacketSetSeed seed) true true
    exact .same ok (by rw [run,sendSeed,setSeed,sent.toReceiver])
  | setBufSize kb => exact .same ok rfl
  | close => exact reset_keeps ok
  | connect initialized bound started =>
    refine .same ok ?_
    unfold run connect getTime
    dsimp only
    split
    · rfl
    · split
      · rfl
      · split <;> rfl
  | attach => exact .same ok rfl

-- There is room for Recv.
structure Roomy (s : TcpSession) : Prop where
  read : ReadOk s
  room : s.readLen < s.readBufSize

theorem Roomy.keeps (roomy : Roomy s) (keeps : Keeps s t) : Roomy t := ⟨keeps.read,keeps.room roomy.room⟩
theorem Roomy.same (roomy : Roomy s) (same : t.toReadSide = s.toReadSide) : Roomy t := roomy.keeps (.same roomy.read same)

theorem reset_roomy (s : TcpSession) : Roomy s.reset := ⟨reset_read s,(by decide : (0 : Int) < maxBufferSize)⟩

theorem recvPacket_room (ok : ReadOk s) :
    (s.recvPacket = (none,s) ∧ Roomy s) ∨ s.recvPacket = (none,{s with state := .dead}) ∨
    ∃ pkt m, s.recvPacket = (some pkt,m) ∧ Roomy m := by
  rcases recvPacket_parts ok with ⟨more,none⟩ | ⟨_,none⟩ | ⟨raw,n,_,positive,bound,some⟩
  · exact .inl ⟨none,ok,more_room ok more⟩
  · exact .inr (.inl none)
  · refine .inr (.inr ⟨_,_,some,(ok.skip bound).1,?_⟩)
    have := ok.inside
    have := ok.pos_nonneg
    simp only [skip]
    omega

theorem took_roomy {pkt : NetPacket} (ok : ReadOk s) (took : s.recvPacket = (some pkt,m)) : Roomy m := by
  rcases recvPacket_room ok with ⟨none,_⟩ | none | ⟨other,u,some,roomy⟩
  · rw [none] at took
    cases took
  · rw [none] at took
    cases took
  · rw [some] at took
    cases took
    exact roomy

theorem handleSysPacket_side (s : TcpSession) (packet : CmdPacket) (noSeed : seedParam packet = none) :
    (s.handleSysPacket packet).toReadSide = s.toReadSide := by
  obtain ⟨times,rtt,same⟩ := handleSysPacket_noSeed s packet noSeed
  rw [same.toReceiver]

theorem runSysPacket_roomy (roomy : Roomy s) (packet : CmdPacket) (stack : List Frame) :
    Roomy (s.runSysPacket packet stack).session ∧
    ((s.runSysPacket packet stack).stack = stack ∨ (s.runSysPacket packet stack).stack = .app :: stack) := by
  unfold runSysPacket
  cases found : seedParam packet with
  | none => exact ⟨roomy.same (handleSysPacket_side s packet found),.inl rfl⟩
  | some seed => exact ⟨roomy.same rfl,.inr rfl⟩

-- The loop of Process and the closing are at the bottom of the stack.
def Shaped : List Frame → Prop
  | [] => True
  | .loop :: rest | .closing :: rest => rest = []
  | .app :: rest | .getting :: rest => Shaped rest

-- While the loop runs the buffer may be full, and in a session that is dead: the one is
-- going to take a frame, and the other does not read.
structure Room (m : Machine) : Prop where
  read : ReadOk m.session
  shaped : Shaped m.stack
  room : Roomy m.session ∨ .loop ∈ m.stack ∨ .closing ∈ m.stack ∨ (m.session.state = .dead ∧ .app ∉ m.stack)

theorem Roomy.machine {m : Machine} (roomy : Roomy m.session) (shaped : Shaped m.stack) : Room m :=
  ⟨roomy.read,shaped,.inl roomy⟩

theorem runSysPacket_room (roomy : Roomy s) (packet : CmdPacket) (shaped : Shaped stack) :
    Room (s.runSysPacket packet stack) := by
  obtain ⟨roomy,same | app⟩ := runSysPacket_roomy roomy packet stack
  · exact roomy.machine (by rw [same]; exact shaped)
  · exact roomy.machine (by rw [app]; exact shaped)

-- A dead session does not read, so the buffer may be full when no callback is waiting.
theorem Takes.room {m : Machine} {after : List Frame} (takes : Takes s stack after m) (ok : ReadOk s) (shaped : Shaped stack)
    (deeper : Shaped after) (around : Roomy s ∨ .loop ∈ stack ∨ .closing ∈ stack ∨ .app ∉ stack) : Room m := by
  cases takes with
  | ended took =>
    rcases recvPacket_room ok with ⟨none,roomy⟩ | none | ⟨_,_,some,_⟩
    · rw [none] at took
      cases took
      exact roomy.machine shaped
    · rw [none] at took
      cases took
      refine ⟨ok.same rfl,shaped,?_⟩
      rcases around with roomy | loop | closing | quiet
      · exact .inl (roomy.same rfl)
      · exact .inr (.inl loop)
      · exact .inr (.inr (.inl closing))
      · exact .inr (.inr (.inr ⟨rfl,quiet⟩))
    · rw [some] at took
      cases took
  | handled took packet => exact runSysPacket_room (took_roomy ok took) packet deeper
  | given took call => exact Roomy.machine ((took_roomy ok took).same rfl) deeper
  | kept took => exact (took_roomy ok took).machine shaped

theorem runConnecting_room (roomy : Roomy s) : Room s.runConnecting := by
  unfold runConnecting
  dsimp only
  split
  · exact Roomy.machine ((reset_roomy s).same rfl) trivial
  · split
    · exact Roomy.machine ((reset_roomy s).same rfl) trivial
    · split
      · exact Roomy.machine (roomy.same rfl) trivial
      · split
        · exact Roomy.machine (roomy.same rfl) rfl
        · exact Roomy.machine (roomy.same rfl) trivial

theorem defProc_state (ok : ReadOk s) :
    s.defProc = s ∨ s.defProc.state = .connected ∨ s.defProc.state = .waitingSeed ∨ s.defProc.state = .dead := by
  by_cases live : s.state = .connected
  · by_cases late : s.timedOut
    · obtain ⟨times,last,proc⟩ := defProc_late live late
      exact .inr (.inr (.inr (by rw [proc])))
    · rcases (defProc_loaded ok live late).2 with ⟨_,dead⟩ | ⟨_,still⟩
      · exact .inr (.inr (.inr dead))
      · exact .inr (.inl still)
  · by_cases waits : s.state = .waitingSeed
    · have proc : s.defProc = s.readData := by simp [defProc,waits]
      rcases (readData_loaded ok).2 with ⟨_,dead⟩ | ⟨_,still⟩
      · exact .inr (.inr (.inr (proc ▸ dead)))
      · exact .inr (.inr (.inl (proc ▸ still.trans waits)))
    · exact .inl (if_pos ⟨live,waits⟩)

theorem runProcess_room (ok : ReadOk s) (room : Roomy s ∨ s.state = .dead) : Room s.runProcess := by
  have read := defProc_read ok
  have idle : ∀ state, s.defProc.state = state → state = .connecting ∨ state = .zero → s.defProc = s ∧ Roomy s := by
    intro state same quiet
    rcases defProc_state ok with proc | moved
    · refine ⟨proc,room.resolve_right fun dead => ?_⟩
      rw [proc,dead] at same
      rw [← same] at quiet
      exact quiet.elim nofun nofun
    · rw [same] at moved
      rcases quiet with rfl | rfl
      · exact (moved.elim nofun fun moved => moved.elim nofun nofun)
      · exact (moved.elim nofun fun moved => moved.elim nofun nofun)
  unfold runProcess
  dsimp only
  cases state : s.defProc.state with
  | connected => exact ⟨read,rfl,.inr (.inl List.mem_cons_self)⟩
  | dead => exact ⟨read.same rfl,rfl,.inr (.inr (.inl (List.mem_cons_of_mem _ List.mem_cons_self)))⟩
  | waitingSeed => exact (runWaiting_takes _).room read trivial trivial (.inr (.inr (.inr List.not_mem_nil)))
  | connecting =>
    obtain ⟨proc,roomy⟩ := idle _ state (.inl rfl)
    dsimp only
    rw [proc]
    exact runConnecting_room roomy
  | zero =>
    obtain ⟨proc,roomy⟩ := idle _ state (.inr rfl)
    dsimp only
    rw [proc]
    exact Roomy.machine roomy trivial

-- A dead session that is called from outside stays dead, or is closed.
theorem run_dead {s : TcpSession} (dead : s.state = .dead) (call : AppCall)
    (allows : Machine.Allows ⟨s,[]⟩ call) : (s.run call).state = .dead ∨ Roomy (s.run call) := by
  have idle : s.state ≠ .connected := by rw [dead]; nofun
  cases call with
  | sendPacket packet flush sys => exact .inl (by rw [run,sendPacket_idle idle]; exact dead)
  | sendSeed seed =>
    refine .inl ?_
    rw [run,sendSeed,sendPacket_idle idle]
    exact dead
  | setBufSize kb => exact .inl dead
  | close => exact .inr (reset_roomy s)
  | connect initialized bound started => exact absurd dead (allows rfl)
  | attach => exact absurd dead (allows rfl)

theorem step_room (inv : Room m) (step : MachineStep m event next) : Room next := by
  obtain ⟨ok,shaped,room⟩ := inv
  cases step with
  | process s o =>
    refine runProcess_room (ok.same rfl) ?_
    rcases room with roomy | loop | closing | ⟨dead,_⟩
    · exact .inl (roomy.same rfl)
    · cases loop
    · cases closing
    · exact .inr dead
  | loop s o rest =>
    have bottom : rest = [] := shaped
    subst bottom
    exact (runLoop_takes _ _).room (ok.same rfl) trivial rfl (.inr (.inr (.inr List.not_mem_nil)))
  | getting s o rest =>
    refine (runGetting_takes _ _).room (ok.same rfl) shaped shaped ?_
    rcases room with roomy | loop | closing | ⟨_,quiet⟩
    · exact .inl (roomy.same rfl)
    · exact .inr (.inl ((List.mem_cons.mp loop).resolve_left nofun))
    · exact .inr (.inr (.inl ((List.mem_cons.mp closing).resolve_left nofun)))
    · exact .inr (.inr (.inr fun app => quiet (List.mem_cons_of_mem _ app)))
  | closing s o rest =>
    have bottom : rest = [] := shaped
    subst bottom
    exact Roomy.machine (reset_roomy (s.meet o)) trivial
  | returns s rest =>
    refine ⟨ok,shaped,?_⟩
    rcases room with roomy | loop | closing | ⟨_,quiet⟩
    · exact .inl roomy
    · exact .inr (.inl ((List.mem_cons.mp loop).resolve_left nofun))
    · exact .inr (.inr (.inl ((List.mem_cons.mp closing).resolve_left nofun)))
    · exact absurd List.mem_cons_self quiet
  | calls m o call applies allows =>
    have met : ReadOk (m.session.meet o) := ok.same rfl
    have keeps := run_keeps met call
    refine ⟨keeps.read,shaped,?_⟩
    rcases room with roomy | loop | closing | ⟨dead,quiet⟩
    · exact .inl ((roomy.same (t := m.session.meet o) rfl).keeps keeps)
    · exact .inr (.inl loop)
    · exact .inr (.inr (.inl closing))
    · obtain ⟨s,stack⟩ := m
      rcases applies with rfl | ⟨rest,rfl⟩
      · rcases run_dead (s := s.meet o) dead call (by cases call <;> exact allows) with still | roomy
        · exact .inr (.inr (.inr ⟨still,quiet⟩))
        · exact .inl roomy
      · exact absurd List.mem_cons_self quiet
  | getPacket m applies =>
    refine ⟨ok,shaped,?_⟩
    rcases room with roomy | loop | closing | ⟨dead,quiet⟩
    · exact .inl roomy
    · exact .inr (.inl (List.mem_cons_of_mem _ loop))
    · exact .inr (.inr (.inl (List.mem_cons_of_mem _ closing)))
    · exact .inr (.inr (.inr ⟨dead,fun app => (List.mem_cons.mp app).elim nofun quiet⟩))

-- Recv takes at least the first byte of what has come.
theorem recv_room {k : NetSocket} (capacity : 1 ≤ c) (answer : k.recvs = .data bytes :: rest) (some : bytes ≠ []) :
    0 < (k.recv c).1 := by
  unfold NetSocket.recv
  rw [answer]
  dsimp only
  have count : (bytes.take c.toNat).length ≠ 0 := by
    have := List.length_pos_of_ne_nil some
    rw [List.length_take]
    omega
  rw [if_neg (fun empty => count (congrArg List.length empty))]
  dsimp only
  omega

-- The receive buffer has room whenever ReadData runs, so that Recv cannot answer 0
-- but for the end of the stream.
theorem receive_room (s : TcpSession) (path : Path MachineStep ⟨s.reset,[]⟩ taken last) :
    (0 ≤ last.session.readPos ∧ 0 ≤ last.session.readLen ∧
      last.session.readPos+last.session.readLen ≤ last.session.readBufSize) ∧
    ∀ t ∈ taken, ∀ c ∈ capacities t, 1 ≤ c ∧ ∀ (k : NetSocket) bytes rest,
      k.recvs = .data bytes :: rest → bytes ≠ [] → 0 < (k.recv c).1 := by
  have start : Room ⟨s.reset,[]⟩ := (reset_roomy s).machine trivial
  have ok := (path.invariant Room start fun _ _ _ => step_room).read
  refine ⟨⟨ok.pos_nonneg,ok.len_nonneg,ok.inside⟩,?_⟩
  have along := path.along Room (fun before event after => ∀ c ∈ capacities ⟨before,event,after⟩, 1 ≤ c) start
    (fun _ _ _ => step_room) (by
      intro before event after inv step
      cases step with
      | process s o =>
        rcases inv.room with roomy | loop | closing | ⟨dead,_⟩
        · exact defProc_capacity roomy.room
        · cases loop
        · cases closing
        · have idle : (s.meet o).state = .dead := dead
          have none : (s.meet o).defProcCapacities = [] := by
            unfold defProcCapacities
            rw [if_pos (by rw [idle]; exact ⟨nofun,nofun⟩)]
          intro c member
          have offered : c ∈ (s.meet o).defProcCapacities := member
          rw [none] at offered
          cases offered
      | loop => nofun
      | getting => nofun
      | closing => nofun
      | returns => nofun
      | calls => nofun
      | getPacket => nofun)
  intro t member c offered
  have capacity := along t member c offered
  exact ⟨capacity,fun k bytes rest => recv_room capacity⟩

-- The first tick after Attach.
theorem receive_room_attached : ∃ c, ((new.reset.meet default).attach.meet default).defProcCapacities = [c] ∧ 1 ≤ c := by
  have attached := MachineStep.calls ⟨new.reset,[]⟩ default .attach (.inl rfl) (fun _ => nofun)
  have path := Path.step (.step .nil attached) (MachineStep.process (new.reset.meet default).attach default)
  have capacity := (receive_room new path).2 _ (List.mem_append_right _ (List.mem_singleton.mpr rfl)) 16389 List.mem_cons_self
  exact ⟨16389,rfl,capacity.1⟩

end PcNetwork.TcpSession
