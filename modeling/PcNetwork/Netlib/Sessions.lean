import PcNetwork.Netlib.TcpSession
import PcNetwork.Netlib.Closings

namespace PcNetwork.Netlib

section Generic
variable {T : Type} [Session T]

-- What holds of a session in the map before anything was closed (`false`) and is kept by
-- all that ProcessServer does with it; `true` stands for a session that has closed itself.
structure Carried (I : Bool → Entry T → Prop) : Prop where
  new : ∀ socket time, I false ⟨socket,Session.timeSet Session.new time,[],[],false⟩
  sendNext : ∀ e, I false e → I false (TcpSocket.sendNext e)
  recv : ∀ e bytes, I false e → I false {e with received := e.received ++ bytes}
  timeSet : ∀ closes e time, I closes e → I closes {e with session := Session.timeSet e.session time}
  pushRecvPacket : ∀ closes e p time, I closes e → I (closes || (Session.pushRecvPacket e.session p time).1) {e with
    session := (Session.pushRecvPacket e.session p time).2
    delivered := e.delivered ++ [p.frame]
    dangling := e.dangling || closes}
  checkConnect : ∀ e time, I false e → I false {e with session := Session.checkConnect e.session time}

-- The sessions that are there and those that were closed.
structure Everywhere (I : Bool → Entry T → Prop) (s : TcpSocket T) : Prop where
  stay : ∀ e ∈ s.sessions, I false e
  gone : ∀ e ∈ s.gone, I true e

namespace TcpSocket
variable {I : Bool → Entry T → Prop} (carried : Carried I)
include carried

theorem pushLoop_carries {fuel : Nat} {packet : NetPacket} {e : Entry T} {closes : Bool} {times : List UInt32} (kept : I closes e)
    (ran : pushLoop fuel packet e closes times = some (next,after,closing,clock)) : I closing after := by
  induction fuel generalizing packet e closes times with
  | zero => cases ran
  | succ fuel ih =>
    unfold pushLoop at ran
    split at ran
    · have timed : I closes {e with session := (if packet.getCmd = nlibpConnect then
          (Session.timeSet e.session (times.headD 0),times.tail) else (e.session,times)).1} := by
        split
        · exact carried.timeSet _ _ _ kept
        · exact kept
      have pushed := carried.pushRecvPacket closes _ packet (((if packet.getCmd = nlibpConnect then
          (Session.timeSet e.session (times.headD 0),times.tail) else (e.session,times)).2).headD 0) timed
      dsimp only at ran
      split at ran
      · cases ran
        exact pushed
      · exact ih pushed ran
    · cases ran
      exact kept

theorem readSession_carries {e : Entry T} {times : List UInt32} (kept : I false e)
    (ran : readSession o e shared times = some (next,after,closes,clock)) : I closes after := by
  unfold readSession at ran
  split at ran
  · cases ran
    exact kept
  · have received := fun bytes => carried.recv e bytes kept
    dsimp only at ran
    split at ran
    · split at ran
      · cases ran
      · rename_i looped
        cases ran
        exact pushLoop_carries carried (received _) looped
    · cases ran
      exact received _

theorem visit_carries {sessions : List (Entry T)} {shared : NetPacket} {times : List UInt32} (kept : ∀ e ∈ sessions, I false e)
    (ran : visit o sessions shared times = some (stay,close,clock)) :
    (∀ e ∈ stay, I false e) ∧ ∀ e ∈ close, I true e := by
  induction sessions generalizing shared times stay close clock with
  | nil =>
    cases ran
    exact ⟨nofun,nofun⟩
  | cons e rest ih =>
    obtain ⟨mine,others⟩ := List.forall_mem_cons.mp kept
    have ready : I false (if o.writable e.socket then sendNext e else e) := by
      split
      · exact carried.sendNext e mine
      · exact mine
    unfold visit at ran
    split at ran
    · cases ran
    · rename_i next after closes later read
      have good := readSession_carries carried ready read
      split at ran
      · cases ran
      · rename_i staying gone last visited
        obtain ⟨stays,closed⟩ := ih others visited
        cases closes with
        | false =>
          cases ran
          exact ⟨List.forall_mem_cons.mpr ⟨good,stays⟩,closed⟩
        | true =>
          cases ran
          exact ⟨stays,List.forall_mem_cons.mpr ⟨good,closed⟩⟩

theorem createSession_carries {s : TcpSocket T} (all : Everywhere I s) (o : Outside) : Everywhere I (s.createSession o) := by
  unfold createSession
  split
  · exact all
  · exact all
  · refine ⟨fun e member => ?_,all.gone⟩
    rcases insertEntry_mem member with new | old
    · rw [new]
      exact carried.new _ _
    · exact all.stay e old

theorem checkTime_carries {s : TcpSocket T} (all : Everywhere I s) : Everywhere I s.checkTime := by
  have checked : ∀ (s : TcpSocket T) t, Everywhere I s → Everywhere I (s.checkConnect t) := by
    intro s t all
    refine ⟨fun e member => ?_,all.gone⟩
    obtain ⟨x,inside,rfl⟩ := List.mem_map.mp member
    exact carried.checkConnect x t (all.stay x inside)
  have timed : ∀ (s : TcpSocket T) times last, Everywhere I s → Everywhere I {s with times,lastTime := last} :=
    fun _ _ _ all => ⟨all.stay,all.gone⟩
  unfold checkTime getTime
  dsimp only
  split
  · split
    · exact timed _ _ _ (checked _ _ (timed _ _ _ all))
    · exact timed _ _ _ all
  · split
    · exact timed _ _ _ (checked _ _ (timed _ _ _ all))
    · exact timed _ _ _ all

theorem processServer_carries {s next : TcpSocket T} (all : Everywhere I s) (returned : s.processServer o = some next) :
    Everywhere I next := by
  have timed : Everywhere I ({s with times := o.times} : TcpSocket T) := ⟨all.stay,all.gone⟩
  unfold processServer at returned
  dsimp only at returned
  split at returned
  · have ready := createSession_carries carried timed o
    split at returned
    · cases returned
    · rename_i stay close clock visited
      cases returned
      obtain ⟨staying,closing⟩ := visit_carries carried ready.stay visited
      refine checkTime_carries carried ⟨staying,fun e member => ?_⟩
      exact (List.mem_append.mp member).elim (ready.gone e) (closing e)
  · cases returned
    exact checkTime_carries carried timed

end TcpSocket
end Generic

-- And kept by what the application does, it holds of every session of every run.
theorem net_carries {I : Bool → Entry TcpSession → Prop} (carried : Carried I)
    (acts : ∀ e call, I false e → I false {e with session := e.session.act call})
    (path : Path NetStep TcpSocket.created taken last) : Everywhere I last := by
  refine path.invariant (Everywhere I) ⟨nofun,nofun⟩ fun before event after all step => ?_
  cases step with
  | processServer returned => exact TcpSocket.processServer_carries carried all returned
  | app =>
    refine ⟨fun e member => ?_,all.gone⟩
    obtain ⟨x,inside,rfl⟩ := List.mem_map.mp member
    have mine := all.stay x inside
    split
    · exact acts _ _ mine
    · exact mine

-- Such an invariant of the sessions alone.
structure Preserved (I : TcpSession → Prop) : Prop where
  new : I TcpSession.new
  timeSet : ∀ s time, I s → I (s.timeSet time)
  sendNext : ∀ e : Entry TcpSession, I e.session → I (TcpSocket.sendNext e).session
  pushRecvPacket : ∀ s p time, I s → I (s.pushRecvPacket p time).2
  checkConnect : ∀ s time, I s → I (s.checkConnect time)
  act : ∀ s call, I s → I (TcpSession.act s call)

theorem net_keeps {I : TcpSession → Prop} (preserved : Preserved I) (path : Path NetStep TcpSocket.created taken last) :
    ∀ e ∈ last.sessions ++ last.gone, I e.session := by
  have carried : Carried fun _ (e : Entry TcpSession) => I e.session :=
    ⟨fun _ time => preserved.timeSet _ time preserved.new,preserved.sendNext,fun _ _ kept => kept,fun _ e time => preserved.timeSet e.session time,
      fun _ e => preserved.pushRecvPacket e.session,fun e => preserved.checkConnect e.session⟩
  obtain ⟨stay,gone⟩ := net_carries carried (fun e call => preserved.act e.session call) path
  exact fun e member => (List.mem_append.mp member).elim (stay e) (gone e)

end PcNetwork.Netlib
