import PcNetwork.Session.Ticks

namespace PcNetwork.TcpSession

-- Code that goes on when what is above it has returned: a callback of the application,
-- the loop of Process, GetPacket called by the application, and the Close that follows
-- OnDisconnect or OnConnect(false).
inductive Frame where
  | app
  | loop
  | getting
  | closing
deriving DecidableEq

-- A session in small steps. In a callback the application may call what it likes, apart
-- from DefProc and Process, and each call is a step of its own.
structure Machine where
  session : TcpSession
  stack : List Frame

inductive AppCall where
  | sendPacket (packet : CmdPacket) (flush sys : Bool)
  | sendSeed (seed : Int32)
  | setBufSize (kb : Int)
  | close
  | connect (initialized bound started : Bool)
  | attach

def run (s : TcpSession) : AppCall → TcpSession
  | .sendPacket packet flush sys => (s.sendPacket packet flush sys).2
  | .sendSeed seed => s.sendSeed seed
  | .setBufSize kb => s.setBufSize kb
  | .close => s.close
  | .connect initialized bound started => (s.connect initialized bound started).2
  | .attach => s.attach

-- The head of `app` is what the application would send if it only sent.
def enter (s : TcpSession) (call : Callback) (stack : List Frame) : Machine :=
  ⟨{s with calls := s.calls ++ [call],app := s.app.tail},.app :: stack⟩

-- HandleSysPacket calls OnConnect last.
def runSysPacket (s : TcpSession) (packet : CmdPacket) (stack : List Frame) : Machine :=
  match seedParam packet with
  | some seed =>
    enter {setSeed {s with calls := s.calls ++ [.handleSysPacket packet.readable]} seed with state := .connected}
      (.onConnect true) stack
  | none => ⟨s.handleSysPacket packet,stack⟩

-- One packet in the loop of Process, and in GetPacket.
def runLoop (s : TcpSession) (stack : List Frame) : Machine :=
  match s.recvPacket with
  | (none,s) => ⟨s,stack⟩
  | (some pkt,s) =>
    let packet := pkt.attachCmdPacket recvCmdPkt
    if pkt.isSysPacket then s.runSysPacket packet (.loop :: stack)
    else s.enter (.onReceive packet.readable) (.loop :: stack)

def runGetting (s : TcpSession) (stack : List Frame) : Machine :=
  match s.recvPacket with
  | (none,s) => ⟨s,stack⟩
  | (some pkt,s) =>
    if pkt.isSysPacket then s.runSysPacket (pkt.attachCmdPacket recvCmdPkt) (.getting :: stack) else ⟨s,stack⟩

def runWaiting (s : TcpSession) : Machine :=
  match s.recvPacket with
  | (none,s) => ⟨s,[]⟩
  | (some pkt,s) =>
    if pkt.isSysPacket then s.runSysPacket (pkt.attachCmdPacket recvCmdPkt) [] else ⟨s,[]⟩

def runConnecting (s : TcpSession) : Machine :=
  let (bad,socket) := s.socket.hasExcept
  let s := {s with socket}
  if bad then s.close.enter (.onConnect false) [] else
  let (now,s) := s.getTime
  if now-s.connTime > netConnectTimeout then s.close.enter (.onConnect false) [] else
  let (ready,socket) := s.socket.canWrite
  let s := {s with socket}
  if ready = false then ⟨s,[]⟩ else
  let (err,socket) := s.socket.soError
  let s := {s with socket}
  if err then s.enter (.onConnect false) [.closing] else
  let (now,s) := s.getTime
  ⟨{s with state := .waitingSeed,lastSendTime := now,lastRecvTime := now},[]⟩

def runProcess (s : TcpSession) : Machine :=
  let s := s.defProc
  match s.state with
  | .connected => ⟨s,[.loop]⟩
  | .dead => s.enter .onDisconnect [.closing]
  | .waitingSeed => s.runWaiting
  | .connecting => s.runConnecting
  | .zero => ⟨s,[]⟩

namespace Machine

-- The application is running, in a callback or outside.
def Applies (m : Machine) : Prop := m.stack = [] ∨ ∃ rest, m.stack = .app :: rest

-- From outside a dead session is closed before it is opened again.
def Allows (m : Machine) : AppCall → Prop
  | .connect _ _ _ | .attach => m.stack = [] → m.session.state ≠ .dead
  | .sendPacket _ _ _ | .sendSeed _ | .setBufSize _ | .close => True

end Machine

inductive MachineEvent where
  | process (o : Outside)
  | proceeds (o : Outside)
  | returns
  | calls (o : Outside) (call : AppCall)
  | getPacket

inductive MachineStep : Machine → MachineEvent → Machine → Prop where
  | process (s : TcpSession) (o : Outside) : MachineStep ⟨s,[]⟩ (.process o) (s.meet o).runProcess
  | loop (s : TcpSession) (o : Outside) (rest : List Frame) :
      MachineStep ⟨s,.loop :: rest⟩ (.proceeds o) ((s.meet o).runLoop rest)
  | getting (s : TcpSession) (o : Outside) (rest : List Frame) :
      MachineStep ⟨s,.getting :: rest⟩ (.proceeds o) ((s.meet o).runGetting rest)
  | closing (s : TcpSession) (o : Outside) (rest : List Frame) :
      MachineStep ⟨s,.closing :: rest⟩ (.proceeds o) ⟨(s.meet o).close,rest⟩
  | returns (s : TcpSession) (rest : List Frame) : MachineStep ⟨s,.app :: rest⟩ .returns ⟨s,rest⟩
  | calls (m : Machine) (o : Outside) (call : AppCall) (applies : m.Applies) (allows : m.Allows call) :
      MachineStep m (.calls o call) ⟨(m.session.meet o).run call,m.stack⟩
  | getPacket (m : Machine) (applies : m.Applies) : MachineStep m .getPacket ⟨m.session,.getting :: m.stack⟩

-- What the parts that take one packet do: with none they end, a system packet is
-- handled, another is given to the application or kept for it.
inductive Takes (s : TcpSession) (stack after : List Frame) : Machine → Prop where
  | ended {t : TcpSession} (took : s.recvPacket = (none,t)) : Takes s stack after ⟨t,stack⟩
  | handled {pkt : NetPacket} {t : TcpSession} (took : s.recvPacket = (some pkt,t)) (packet : CmdPacket) :
      Takes s stack after (t.runSysPacket packet after)
  | given {pkt : NetPacket} {t : TcpSession} (took : s.recvPacket = (some pkt,t)) (call : Callback) :
      Takes s stack after (t.enter call after)
  | kept {pkt : NetPacket} {t : TcpSession} (took : s.recvPacket = (some pkt,t)) : Takes s stack after ⟨t,stack⟩

theorem runLoop_takes (s : TcpSession) (stack : List Frame) : Takes s stack (.loop :: stack) (s.runLoop stack) := by
  unfold runLoop
  rcases took : s.recvPacket with ⟨_ | pkt,t⟩
  · exact .ended took
  · dsimp only
    split
    · exact .handled took _
    · exact .given took _

theorem runGetting_takes (s : TcpSession) (stack : List Frame) : Takes s stack (.getting :: stack) (s.runGetting stack) := by
  unfold runGetting
  rcases took : s.recvPacket with ⟨_ | pkt,t⟩
  · exact .ended took
  · dsimp only
    split
    · exact .handled took _
    · exact .kept took

theorem runWaiting_takes (s : TcpSession) : Takes s [] [] s.runWaiting := by
  unfold runWaiting
  rcases took : s.recvPacket with ⟨_ | pkt,t⟩
  · exact .ended took
  · dsimp only
    split
    · exact .handled took _
    · exact .kept took

-- A Process call of an application that only sends is a run of these steps.
def Runs (m last : Machine) : Prop := ∃ taken, Path MachineStep m taken last

theorem Runs.refl (m : Machine) : Runs m m := ⟨_,.nil⟩

theorem Runs.step (runs : Runs m middle) (step : MachineStep middle event last) : Runs m last := by
  obtain ⟨taken,path⟩ := runs
  exact ⟨_,path.step step⟩

theorem Runs.trans (first : Runs m middle) (second : Runs middle last) : Runs m last := by
  obtain ⟨taken,path⟩ := first
  obtain ⟨further,onward⟩ := second
  exact ⟨_,path.append onward⟩

def outside (s : TcpSession) : Outside :=
  ⟨s.socket.recvs,s.socket.sends,s.socket.excepts,s.socket.writables,s.socket.soErrors,s.times,s.app,s.behindSeed⟩

theorem meet_outside (s : TcpSession) : s.meet s.outside = s := rfl

theorem callback_runs (s : TcpSession) (call : Callback) (stack : List Frame) :
    Runs (s.enter call stack) ⟨s.callback call,stack⟩ := by
  have sends : ∀ (calls : List SendCall) (t : TcpSession),
      Runs ⟨t,.app :: stack⟩ ⟨calls.foldl (fun s c => (s.sendPacket c.packet c.flush false).2) t,.app :: stack⟩ := by
    intro calls
    induction calls with
    | nil => exact fun t => .refl _
    | cons call rest ih =>
      intro t
      have step := MachineStep.calls ⟨t,.app :: stack⟩ t.outside (.sendPacket call.packet call.flush false) (.inr ⟨_,rfl⟩) trivial
      exact ((Runs.refl _).step step).trans (ih _)
  exact (sends _ _).step (.returns _ _)

theorem runSysPacket_runs (s : TcpSession) (packet : CmdPacket) (stack : List Frame) :
    Runs (s.runSysPacket packet stack) ⟨s.handleSysPacket packet,stack⟩ := by
  unfold runSysPacket
  cases found : seedParam packet with
  | none => exact .refl _
  | some seed =>
    rw [handleSysPacket_seed s packet found]
    exact callback_runs _ _ _

theorem loop_runs (ok : ReadOk s) (pumped : Pump s t) : Runs ⟨s,[.loop]⟩ ⟨t,[]⟩ := by
  induction pumped with
  | @stop s t took =>
    have step := MachineStep.loop s s.outside []
    rw [meet_outside,runLoop,took] at step
    exact (Runs.refl _).step step
  | @next pkt s m t took _ ih =>
    have step := MachineStep.loop s s.outside []
    have kept := ih (handle_read ok took).1
    rw [meet_outside,runLoop,took] at step
    unfold handle at kept
    by_cases sys : pkt.isSysPacket
    · simp only [if_pos sys] at step kept
      exact (((Runs.refl _).step step).trans (runSysPacket_runs _ _ _)).trans kept
    · simp only [if_neg sys] at step kept
      exact (((Runs.refl _).step step).trans (callback_runs _ _ _)).trans kept

theorem connecting_runs (s : TcpSession) : Runs s.runConnecting ⟨s.connecting,[]⟩ := by
  unfold runConnecting connecting
  dsimp only
  split
  · exact callback_runs _ _ _
  · split
    · exact callback_runs _ _ _
    · split
      · exact .refl _
      · split
        · exact (callback_runs _ _ _).step (.closing _ (outside _) _)
        · exact .refl _

theorem defProc_read (ok : ReadOk s) : ReadOk s.defProc := by
  unfold defProc getTime
  split
  · exact ok
  · split
    · dsimp only
      split
      · split
        · exact ok.same rfl
        · exact (readData_loaded (ok.same (by rw [flushData_toReceiver]))).1.read
      · split
        · exact ok.same rfl
        · exact (readData_loaded (ok.same (by rw [flushData_toReceiver]))).1.read
    · exact (readData_loaded ok).1.read

theorem process_runs (ok : ReadOk s) : Runs ⟨s,[]⟩ ⟨s.process,[]⟩ := by
  refine ((Runs.refl _).step (.process s s.outside)).trans ?_
  rw [meet_outside]
  unfold process runProcess
  have read := defProc_read ok
  dsimp only
  generalize s.defProc = u at read ⊢
  cases u.state with
  | connected =>
    have len := read.len_nonneg
    exact loop_runs read (receiveLoop_pump _ read (by omega))
  | dead => exact (callback_runs _ _ _).step (.closing _ (outside _) _)
  | waitingSeed =>
    unfold runWaiting waiting
    dsimp only
    rcases u.recvPacket with ⟨_ | pkt,t⟩
    · exact .refl _
    · dsimp only
      split
      · exact runSysPacket_runs _ _ _
      · exact .refl _
  | connecting => exact connecting_runs _
  | zero => exact .refl _

end PcNetwork.TcpSession
