import PcNetwork.Session.Receive
import PcNetwork.Library.Path

namespace PcNetwork.TcpSession

-- What can go wrong in DefProc, read off the state and the answers it is going to
-- get: the timeout, a Send of FlushData that returns -1, a Recv that does.
def timedOut (s : TcpSession) : Prop := s.times.headD 0-s.lastRecvTime > netTimeout

-- The stretch that one Send of FlushData is offered.
def stretch (s : TcpSession) (off len : Int) : List UInt8 := Block.slice s.writeBuf off.toNat len.toNat

def sendFails (s : TcpSession) : Prop :=
  s.writeLen ≠ 0 ∧
  if s.writeEnd > s.writeBeg then (s.socket.send (s.stretch s.writeBeg s.writeLen)).1 < 0
  else
    let (ret,socket) := s.socket.send (s.stretch s.writeBeg (s.writeBufSize-s.writeBeg))
    ret < 0 ∨ ((s.writeBeg+ret) % s.writeBufSize = 0 ∧ (socket.send (s.stretch 0 s.writeEnd)).1 < 0)

def recvFails (s : TcpSession) : Prop := (s.socket.recv (s.readBufSize-s.readLen)).1 < 0

-- The bytes Recv is going to return.
def arriving (s : TcpSession) : List UInt8 := (s.socket.recv (s.readBufSize-s.readLen)).2.1

instance (s : TcpSession) : Decidable s.timedOut := inferInstanceAs (Decidable (_ > _))
instance (s : TcpSession) : Decidable s.recvFails := inferInstanceAs (Decidable (_ < _))
instance (s : TcpSession) : Decidable s.sendFails := inferInstanceAs (Decidable (_ ∧ ite _ _ _))

theorem sendFrom_taken {s : TcpSession} (taken : ¬ (s.socket.send (s.stretch off len)).1 < 0) :
    s.sendFrom off len = (true,{s.touch off len with
      socket := (s.socket.send (s.stretch off len)).2
      writeLen := s.writeLen-(s.socket.send (s.stretch off len)).1
      writeBeg := (s.writeBeg+(s.socket.send (s.stretch off len)).1) % s.writeBufSize}) := by
  unfold sendFrom
  exact if_pos (Int.not_lt.mp taken)

theorem sendFrom_refused {s : TcpSession} (refused : (s.socket.send (s.stretch off len)).1 < 0) :
    s.sendFrom off len = (false,{s.touch off len with
      socket := (s.socket.send (s.stretch off len)).2
      state := .dead}) := by
  unfold sendFrom
  exact if_neg (Int.not_le.mpr refused)

-- FlushData kills the session exactly when a Send it makes fails.
theorem flushData_state {s : TcpSession} (live : s.state = .connected) :
    (s.sendFails ∧ s.flushData.state = .dead) ∨ (¬ s.sendFails ∧ s.flushData.state = .connected) := by
  unfold flushData sendFails
  by_cases empty : s.writeLen = 0
  · rw [if_pos empty]
    exact .inr ⟨fun fails => fails.1 empty,live⟩
  · rw [if_neg empty]
    by_cases order : s.writeEnd > s.writeBeg
    · rw [if_pos order,if_pos order]
      by_cases refused : (s.socket.send (s.stretch s.writeBeg s.writeLen)).1 < 0
      · rw [sendFrom_refused refused]
        exact .inl ⟨⟨empty,refused⟩,rfl⟩
      · rw [sendFrom_taken refused]
        exact .inr ⟨fun fails => refused fails.2,live⟩
    · rw [if_neg order,if_neg order]
      by_cases refused : (s.socket.send (s.stretch s.writeBeg (s.writeBufSize-s.writeBeg))).1 < 0
      · rw [sendFrom_refused refused]
        exact .inl ⟨⟨empty,.inl refused⟩,rfl⟩
      · rw [sendFrom_taken refused]
        dsimp only
        by_cases front : (s.writeBeg+(s.socket.send (s.stretch s.writeBeg (s.writeBufSize-s.writeBeg))).1) %
            s.writeBufSize = 0
        · rw [if_neg nofun,if_neg (not_not.mpr front)]
          -- the second Send starts at index 0
          by_cases lost : ((s.socket.send (s.stretch s.writeBeg (s.writeBufSize-s.writeBeg))).2.send
              (s.stretch 0 s.writeEnd)).1 < 0
          · rw [sendFrom_refused lost]
            exact .inl ⟨⟨empty,.inr ⟨front,lost⟩⟩,rfl⟩
          · rw [sendFrom_taken lost]
            exact .inr ⟨fun fails => fails.2.elim refused fun second => lost second.2,live⟩
        · rw [if_neg nofun,if_pos front]
          exact .inr ⟨fun fails => fails.2.elim refused fun second => front second.1,live⟩

-- DefProc read some more.
structure Loaded (s u : TcpSession) (got : List UInt8) : Prop where
  read : ReadOk u
  unread : u.unread = s.unread ++ got
  received : u.socket.received = s.socket.received ++ got
  view : u.view = s.view

theorem readData_loaded {s : TcpSession} (ok : ReadOk s) :
    Loaded s s.readData s.arriving ∧
    ((s.recvFails ∧ s.readData.state = .dead) ∨ (¬ s.recvFails ∧ s.readData.state = s.state)) := by
  obtain ⟨side,times,last,filled,fine,grown⟩ := readData_parts ok
  refine ⟨⟨fine,grown,?_,?_⟩,?_⟩
  · rw [filled]; exact (recv_parts _ _).1
  · rw [filled]; rfl
  · rw [filled]
    by_cases fails : s.recvFails
    · exact .inl ⟨fails,if_pos fails⟩
    · exact .inr ⟨fails,if_neg fails⟩

theorem recv_congr {k l : NetSocket} (same : k.toSocketIn = l.toSocketIn) (len : Int) :
    (k.recv len).1 = (l.recv len).1 ∧ (k.recv len).2.1 = (l.recv len).2.1 := by
  have recvs : k.recvs = l.recvs := congrArg SocketIn.recvs same
  unfold NetSocket.recv
  rw [recvs]
  split
  all_goals try exact ⟨rfl,rfl⟩
  dsimp only
  split <;> exact ⟨rfl,rfl⟩

theorem defProc_late {s : TcpSession} (live : s.state = .connected) (late : s.timedOut) :
    ∃ times last, s.defProc = {s with times,lastSendTime := last,state := .dead} := by
  unfold defProc getTime
  rw [if_neg (by simp [live]),if_pos live]
  dsimp only
  split
  · exact ⟨_,_,if_pos late⟩
  · exact ⟨_,_,if_pos late⟩

theorem defProc_inTime {s : TcpSession} (live : s.state = .connected) (inTime : ¬ s.timedOut) :
    ∃ last, s.defProc = (flushData {s with times := s.times.tail,lastSendTime := last}).readData := by
  unfold defProc getTime
  rw [if_neg (by simp [live]),if_pos live]
  dsimp only
  split
  · exact ⟨s.times.headD 0,if_neg inTime⟩
  · exact ⟨s.lastSendTime,if_neg inTime⟩

theorem defProc_loaded {s : TcpSession} (ok : ReadOk s) (live : s.state = .connected) (inTime : ¬ s.timedOut) :
    Loaded s s.defProc s.arriving ∧
    (((s.sendFails ∨ s.recvFails) ∧ s.defProc.state = .dead) ∨
      (¬ (s.sendFails ∨ s.recvFails) ∧ s.defProc.state = .connected)) := by
  obtain ⟨last,proc⟩ := defProc_inTime live inTime
  let start : TcpSession := {s with times := s.times.tail,lastSendTime := last}
  have quiet : Outgoing start start.flushData := flushData_outgoing live
  have side : start.flushData.toReadSide = s.toReadSide := by rw [quiet.toReceiver]
  obtain ⟨ready,unread⟩ := ok.congr side
  obtain ⟨loaded,outcome⟩ := readData_loaded ready
  have capacity : start.flushData.readBufSize-start.flushData.readLen = s.readBufSize-s.readLen := by
    rw [quiet.toReceiver]
  obtain ⟨code,bytes⟩ := recv_congr quiet.toSocketIn (s.readBufSize-s.readLen)
  have arrived : start.flushData.arriving = s.arriving := by unfold arriving; rw [capacity]; exact bytes
  have fails : start.flushData.recvFails ↔ s.recvFails := by unfold recvFails; rw [capacity,code]
  rw [proc]
  refine ⟨⟨loaded.read,?_,?_,?_⟩,?_⟩
  · rw [loaded.unread,unread,arrived]
  · rw [loaded.received,arrived,show start.flushData.socket.received = start.flushData.socket.toSocketIn.received from rfl,
      quiet.toSocketIn]
  · rw [loaded.view,view,quiet.toReceiver]; rfl
  · rcases outcome with ⟨fail,dead⟩ | ⟨kept,same⟩
    · exact .inl ⟨.inr (fails.mp fail),dead⟩
    · rw [same]
      rcases flushData_state (s := start) live with ⟨sends,dead⟩ | ⟨sends,alive⟩
      · exact .inl ⟨.inl sends,dead⟩
      · exact .inr ⟨fun fail => fail.elim sends fun recv => kept (fails.mpr recv),alive⟩

-- When DefProc kills a CONNECTED session.
def procFails (s : TcpSession) : Prop := s.timedOut ∨ s.sendFails ∨ s.recvFails

-- After a timeout nothing is read any more.
def read (s : TcpSession) : List UInt8 := if s.timedOut then [] else s.arriving

theorem process_connected {s : TcpSession} (ok : ReadOk s) (live : s.state = .connected) :
    (s.procFails ∧ ∃ u, Loaded s u s.read ∧ u.state = .dead ∧ s.process = u.onDisconnect.close) ∨
    (¬ s.procFails ∧ Loaded s s.defProc s.arriving ∧ s.defProc.state = .connected ∧ Pump s.defProc s.process) := by
  by_cases late : s.timedOut
  · obtain ⟨times,last,proc⟩ := defProc_late live late
    obtain ⟨same,unread⟩ := ok.congr (t := {s with times,lastSendTime := last,state := .dead}) rfl
    refine .inl ⟨.inl late,{s with times,lastSendTime := last,state := .dead},⟨same,?_,?_,?_⟩,rfl,?_⟩
    · rw [read,if_pos late,List.append_nil]; exact unread
    · rw [read,if_pos late,List.append_nil]
    · rfl
    · unfold process; rw [proc]
  · obtain ⟨loaded,outcome⟩ := defProc_loaded ok live late
    rcases outcome with ⟨fails,dead⟩ | ⟨kept,alive⟩
    · refine .inl ⟨.inr fails,s.defProc,?_,dead,?_⟩
      · rw [read,if_neg late]; exact loaded
      · unfold process; simp only [dead]
    · refine .inr ⟨fun fails => fails.elim late kept,loaded,alive,?_⟩
      have pumped := receiveLoop_pump (s.defProc.readLen.toNat+1) loaded.read
        (by have := loaded.read.len_nonneg; omega)
      unfold process
      simp only [alive]
      exact pumped

theorem process_waiting {s : TcpSession} (ok : ReadOk s) (still : s.state = .waitingSeed) :
    Loaded s s.readData s.arriving ∧
    ((s.recvFails ∧ s.readData.state = .dead ∧ s.process = s.readData.onDisconnect.close) ∨
      (¬ s.recvFails ∧ s.readData.state = .waitingSeed ∧ s.process = s.readData.waiting)) := by
  have proc : s.defProc = s.readData := by simp [defProc,still]
  obtain ⟨loaded,outcome⟩ := readData_loaded ok
  refine ⟨loaded,?_⟩
  rcases outcome with ⟨fails,dead⟩ | ⟨kept,same⟩
  · refine .inl ⟨fails,dead,?_⟩
    unfold process; simp only [proc,dead]
  · refine .inr ⟨kept,same.trans still,?_⟩
    unfold process; simp only [proc,same,still]

theorem process_dead {s : TcpSession} (dead : s.state = .dead) : s.process = s.onDisconnect.close := by
  have proc : s.defProc = s := by simp [defProc,dead]
  unfold process
  simp only [proc,dead]

theorem process_connecting {s : TcpSession} (trying : s.state = .connecting) : s.process = s.connecting := by
  have proc : s.defProc = s := by simp [defProc,trying]
  unfold process
  simp only [proc,trying]

-- WAITING_SEED takes one packet, and only a system packet has an effect.
theorem waiting_parts (ok : ReadOk s) :
    (frames.next s.unread = .more ∧ s.waiting = s) ∨
    (frames.next s.unread = .bad ∧ s.waiting = {s with state := .dead}) ∨
    ∃ raw, ∃ n : Nat, frames.next s.unread = .frame raw (s.unread.drop n) ∧ (n : Int) ≤ s.readLen ∧
      s.waiting = if (s.opened raw).isSysPacket then (s.skip n).handle ((s.skip n).opened raw) else s.skip n := by
  unfold waiting
  rcases recvPacket_parts ok with ⟨more,none⟩ | ⟨bad,none⟩ | ⟨raw,n,found,_,bound,some⟩
  · exact .inl ⟨more,by rw [none]⟩
  · exact .inr (.inl ⟨bad,by rw [none]⟩)
  · refine .inr (.inr ⟨raw,n,found,bound,?_⟩)
    rw [some]
    dsimp only
    split
    · rename_i sys
      unfold handle
      exact (if_pos sys).symm
    · rfl

-- Outside CONNECTED nothing is sent, so a callback is only recorded.
theorem sendPacket_idle {s : TcpSession} (idle : s.state ≠ .connected) (packet : CmdPacket) (flush sys : Bool) :
    s.sendPacket packet flush sys = (false,s) := by
  unfold sendPacket
  exact if_pos idle

theorem callback_idle {s : TcpSession} (idle : s.state ≠ .connected) (call : Callback) :
    s.callback call = {s with calls := s.calls ++ [call],app := s.app.tail} := by
  have sends : ∀ (calls : List SendCall) (t : TcpSession), t.state ≠ .connected →
      calls.foldl (fun s c => (s.sendPacket c.packet c.flush false).2) t = t := by
    intro calls
    induction calls with
    | nil => exact fun _ _ => rfl
    | cons call rest ih =>
      intro t idle
      rw [List.foldl_cons,sendPacket_idle idle]
      exact ih t idle
  exact sends _ _ idle

theorem onDisconnect_close {s : TcpSession} (dead : s.state = .dead) :
    s.onDisconnect.close.state = .zero ∧ s.onDisconnect.close.calls = s.calls ++ [.onDisconnect] ∧
    s.onDisconnect.close.socket.received = s.socket.received ∧ ReadOk s.onDisconnect.close := by
  refine ⟨rfl,?_,?_,reset_read _⟩
  · rw [onDisconnect,callback_idle (by simp [dead])]; rfl
  · rw [onDisconnect,callback_idle (by simp [dead])]; rfl

-- A frame handled moves the session to CONNECTED or to DEAD at most.
theorem handle_state (s : TcpSession) (pkt : NetPacket) :
    (s.handle pkt).state = s.state ∨ (s.handle pkt).state = .connected ∨ (s.handle pkt).state = .dead := by
  unfold handle
  by_cases sys : pkt.isSysPacket
  · rw [if_pos sys]
    cases found : seedParam (pkt.attachCmdPacket recvCmdPkt) with
    | none =>
      obtain ⟨times,rtt,same⟩ := handleSysPacket_noSeed s _ found
      exact same.state.elim .inl fun moved => .inr (.inr moved.2)
    | some seed =>
      rw [handleSysPacket_seed s _ found,onConnect]
      have same := callback_outgoing {setSeed {s with
        calls := s.calls ++ [Callback.handleSysPacket (pkt.attachCmdPacket recvCmdPkt).readable]} seed with
        state := .connected} (.onConnect true)
      exact .inr (same.state.elim .inl fun moved => .inr moved.2)
  · rw [if_neg sys]
    have same := callback_outgoing s (.onReceive (pkt.attachCmdPacket recvCmdPkt).readable)
    exact same.state.elim .inl fun moved => .inr (.inr moved.2)

theorem pump_state (pumped : Pump s t) (ok : ReadOk s) (up : s.state = .connected ∨ s.state = .dead) :
    t.state = .connected ∨ t.state = .dead := by
  induction pumped with
  | @stop s t took =>
    rcases recvPacket_none ok took with ⟨_,rfl⟩ | ⟨_,rfl⟩
    · exact up
    · exact .inr rfl
  | @next pkt s m t took _ ih =>
    have kept := (handle_read ok took).1
    have skipped : m.state = s.state := by
      obtain ⟨raw,n,_,_,_,_,rfl⟩ := recvPacket_some ok took
      rfl
    refine ih kept ?_
    rcases handle_state m pkt with same | moved
    · rw [same,skipped]; exact up
    · exact moved

-- A run of a session: Process ticks that meet anything at all, and SendPacket calls
-- of the application between them, until the session is back in ZERO.
inductive SessionEvent where
  | tick (o : Outside)
  | send (o : Outside) (call : SendCall)

inductive SessionStep : TcpSession → SessionEvent → TcpSession → Prop where
  | tick {s : TcpSession} (o : Outside) : s.state ≠ .zero → SessionStep s (.tick o) (s.meet o).process
  | send {s : TcpSession} (o : Outside) (call : SendCall) : s.state ≠ .zero →
      SessionStep s (.send o call) ((s.meet o).sendPacket call.packet call.flush false).2

-- The payloads given to OnReceive.
def receives (calls : List Callback) : List (List UInt8) :=
  calls.filterMap fun call =>
    match call with
    | .onReceive payload => some payload
    | .onConnect _ | .onDisconnect | .handleSysPacket _ => none

end PcNetwork.TcpSession
