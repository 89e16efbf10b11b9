import PcNetwork.Netlib.TcpSocket

namespace PcNetwork.Netlib
variable {T : Type} [Session T]
namespace TcpSocket

-- Which of the packets that the loop gives to a session close it, as PushRecvPacket
-- answers to one after the other.
def loopAnswers : Nat → NetPacket → T → List UInt32 → List Bool
  | 0,_,_,_ => []
  | fuel+1,packet,session,times =>
    if packet.isCling then
      let (session,times) := if packet.getCmd = nlibpConnect then (Session.timeSet session (times.headD 0),times.tail)
        else (session,times)
      let (closing,session) := Session.pushRecvPacket session packet (times.headD 0)
      closing ::
        match packet.getClingPacket with
        | none => []
        | some next => loopAnswers fuel next session times.tail
    else []

def readAnswers (o : Outside) (e : Entry T) (shared : NetPacket) (times : List UInt32) : List Bool :=
  match o.readable e.socket with
  | none => []
  | some answer =>
    let (recvSize,shared) := shared.recv answer
    if recvSize > 0 then loopAnswers (shared.datalen.toNat+1) shared e.session times else []

-- For every session that is visited.
def visitAnswers (o : Outside) : List (Entry T) → NetPacket → List UInt32 → List (Nat × List Bool)
  | [],_,_ => []
  | e :: rest,shared,times =>
    let ready := if o.writable e.socket then sendNext e else e
    (e.socket,readAnswers o ready shared times) ::
      match readSession o ready shared times with
      | none => []
      | some (shared,_,_,times) => visitAnswers o rest shared times

def answers (s : TcpSocket T) (o : Outside) : List (Nat × List Bool) :=
  let s := {s with times := o.times}
  if o.selects then visitAnswers o (s.createSession o).sessions NetPacket.new (s.createSession o).times else []

-- The sockets of the sessions that close themselves in the call.
def closings (s : TcpSocket T) (o : Outside) : List Nat := ((s.answers o).filter fun visited => true ∈ visited.2).map Prod.fst

-- No frame is given to a session behind one that has closed it.
def Alive (s : TcpSocket T) (o : Outside) : Prop := ∀ visited ∈ s.answers o, true ∉ visited.2.dropLast

instance (s : TcpSocket T) (o : Outside) : Decidable (s.Alive o) := inferInstanceAs (Decidable (∀ visited ∈ s.answers o, _))

theorem pushLoop_answers {fuel : Nat} {packet : NetPacket} {e : Entry T} {closes : Bool} {times : List UInt32}
    (ran : pushLoop fuel packet e closes times = some (next,after,closing,clock)) :
    (closing = true ↔ closes = true ∨ true ∈ loopAnswers fuel packet e.session times) ∧
    (after.dangling = true ↔ e.dangling = true ∨ (closes = true ∧ loopAnswers fuel packet e.session times ≠ []) ∨
      true ∈ (loopAnswers fuel packet e.session times).dropLast) := by
  induction fuel generalizing packet e closes times with
  | zero => cases ran
  | succ fuel ih =>
    unfold pushLoop at ran
    unfold loopAnswers
    by_cases cling : packet.isCling
    · rw [if_pos cling] at ran ⊢
      dsimp only at ran ⊢
      generalize (if packet.getCmd = nlibpConnect then _ else _ : T × List UInt32) = timed at ran ⊢
      generalize Session.pushRecvPacket timed.1 packet (timed.2.headD 0) = pushed at ran ⊢
      cases following : packet.getClingPacket with
      | none =>
        rw [following] at ran
        cases ran
        simp
      | some packet' =>
        rw [following] at ran
        obtain ⟨closed,dangled⟩ := ih ran
        rw [closed,dangled]
        cases later : loopAnswers fuel packet' pushed.2 timed.2.tail with
        | nil => grind
        | cons answer rest =>
          simp only [Bool.or_eq_true,ne_eq,reduceCtorEq,not_false_eq_true,and_true,List.mem_cons]
          grind
    · rw [if_neg cling] at ran ⊢
      cases ran
      simp

theorem readSession_answers {e : Entry T} {times : List UInt32} (ran : readSession o e shared times = some (next,after,closes,clock)) :
    (closes = true ↔ true ∈ readAnswers o e shared times) ∧
    (after.dangling = true ↔ e.dangling = true ∨ true ∈ (readAnswers o e shared times).dropLast) := by
  unfold readSession at ran
  unfold readAnswers
  cases answer : o.readable e.socket with
  | none =>
    rw [answer] at ran
    cases ran
    simp
  | some result =>
    rw [answer] at ran
    dsimp only at ran ⊢
    by_cases some : (shared.recv result).1 > 0
    · rw [if_pos some] at ran ⊢
      split at ran
      · cases ran
      · rename_i looped
        cases ran
        obtain ⟨closed,dangled⟩ := pushLoop_answers looped
        rw [closed,dangled]
        simp
    · rw [if_neg some] at ran ⊢
      cases ran
      simp

theorem sendNext_entry (e : Entry T) : (sendNext e).socket = e.socket ∧ (sendNext e).dangling = e.dangling := by
  unfold sendNext
  split <;> exact ⟨rfl,rfl⟩

-- What PushRecvPacket does with the socket of a session, it does by CloseSession.
theorem pushLoop_socket {fuel : Nat} {packet : NetPacket} {e : Entry T} {closes : Bool} {times : List UInt32}
    (ran : pushLoop fuel packet e closes times = some (next,after,closing,clock)) : after.socket = e.socket := by
  induction fuel generalizing packet e closes times with
  | zero => cases ran
  | succ fuel ih =>
    unfold pushLoop at ran
    split at ran
    · dsimp only at ran
      split at ran
      · cases ran
        rfl
      · exact (ih ran).trans rfl
    · cases ran
      rfl

theorem readSession_socket {e : Entry T} {times : List UInt32} (ran : readSession o e shared times = some (next,after,closes,clock)) :
    after.socket = e.socket := by
  unfold readSession at ran
  split at ran
  · cases ran
    rfl
  · dsimp only at ran
    split at ran
    · split at ran
      · cases ran
      · rename_i looped
        cases ran
        exact (pushLoop_socket looped).trans rfl
    · cases ran
      rfl

-- Those that leave the map are those that one of their packets closes.
theorem visit_closing {sessions : List (Entry T)} {shared : NetPacket} {times : List UInt32}
    (ran : visit o sessions shared times = some (stay,close,clock)) :
    close.map Entry.socket = ((visitAnswers o sessions shared times).filter fun visited => true ∈ visited.2).map Prod.fst := by
  induction sessions generalizing shared times stay close clock with
  | nil =>
    cases ran
    rfl
  | cons e rest ih =>
    have ready : (if o.writable e.socket then sendNext e else e).socket = e.socket := by
      split
      · exact (sendNext_entry e).1
      · rfl
    unfold visit at ran
    unfold visitAnswers
    generalize (if o.writable e.socket then sendNext e else e) = r at ran ready ⊢
    split at ran
    · cases ran
    · rename_i next after closes later read
      dsimp only
      rw [read]
      have closed := (readSession_answers read).1
      have same := (readSession_socket read).trans ready
      split at ran
      · cases ran
      · rename_i staying gone last visited
        have onward := ih visited
        cases closes with
        | false =>
          cases ran
          rw [List.filter_cons_of_neg (by simpa using closed),onward]
        | true =>
          cases ran
          rw [List.filter_cons_of_pos (by simpa using closed),List.map_cons,List.map_cons,onward,same]

end TcpSocket
end PcNetwork.Netlib
