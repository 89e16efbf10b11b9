import PcNetwork.NetSelect.MachineEffects
import PcNetwork.Libnet.Closing

namespace PcNetwork.NetSelect.Machine
open SelectService (Outside Connection)
variable {m n : Machine} {index i : Nat} {serial : UInt64} {o : Outside}

def report : Callback → Option (Report Nat UInt64)
  | .onCon index serial _ _ => some (.up index serial)
  | .onDisCon index serial _ _ => some (.down index serial)
  | .onRead _ _ => none

def reports (m : Machine) : List (Report Nat UInt64) := m.service.callbacks.filterMap report

def wait : Frame → Option (Wait Nat)
  | .onDisCon index => some (.closing index)
  | .onCon index | .onRead index _ => some (.serving index)
  | .loop _ _ => none

-- The service as slots that connections take and leave.
def cycle (m : Machine) : Cycle Nat UInt64 where
  holds i := if (m.service.peers i).socket = invalidSocket then none else some (m.service.peers i).serial
  waits := m.stack.filterMap wait
  log := m.reports

-- The slots that a waiting closePeer is about to free.
def closingSlots (m : Machine) : List Nat := closings m.cycle.waits

-- eventLoop is not called within a callback.
def Grounded : List Frame → Prop
  | [] => True
  | .loop _ _ :: rest => rest = []
  | .onCon _ :: rest | .onDisCon _ :: rest | .onRead _ _ :: rest => Grounded rest

theorem Live.held (live : m.Live index serial) : m.cycle.holds index = some serial := by
  show (if (m.service.peers index).socket = invalidSocket then none else some (m.service.peers index).serial) = _
  rw [if_neg live.2,live.1]

-- No slot was given away and none was freed.
structure SameSlots (m n : Machine) : Prop where
  socket : ∀ i, (n.service.peers i).socket = (m.service.peers i).socket
  serial : ∀ i, (n.service.peers i).serial = (m.service.peers i).serial
  callbacks : n.service.callbacks = m.service.callbacks
  stack : n.stack.filterMap wait = m.stack.filterMap wait

theorem SameSlots.cycle (same : SameSlots m n) : n.cycle = m.cycle := by
  unfold Machine.cycle reports
  rw [Cycle.mk.injEq,same.callbacks,same.stack]
  refine ⟨funext fun i => ?_,rfl,rfl⟩
  rw [same.socket,same.serial]

theorem setPeer_same_slots (m : Machine) (index : Nat) {p : Peer} (socket : p.socket = (m.service.peers index).socket)
    (serial : p.serial = (m.service.peers index).serial) : SameSlots m (m.on (m.service.setPeer index p)) := by
  refine ⟨fun i => ?_,fun i => ?_,rfl,rfl⟩
  · by_cases equal : i = index
    · subst equal
      rw [on_service,setPeer_at]
      exact socket
    · rw [on_service,setPeer_off _ p equal]
  · by_cases equal : i = index
    · subst equal
      rw [on_service,setPeer_at]
      exact serial
    · rw [on_service,setPeer_off _ p equal]

theorem reports_called (m : Machine) {c : Callback} {r : Report Nat UInt64} (reported : report c = some r) (frame : Frame) :
    (m.called c frame).reports = m.reports ++ [r] := by
  unfold reports called
  rw [List.filterMap_append,List.filterMap_cons_some reported,List.filterMap_nil]

-- closePeer calls onDisCon for a connection that is not being closed.
theorem onDisCon_cycle (m : Machine) (index : Nat) (serial : UInt64) (ip : String) (port : UInt32) :
    (m.called (.onDisCon index serial ip port) (.onDisCon index)).cycle = m.cycle.closing index serial := by
  unfold cycle Cycle.closing
  rw [reports_called m rfl]
  rfl

theorem onRead_cycle (m : Machine) (index : Nat) (serial : UInt64) (o : Outside) :
    (m.called (.onRead index serial) (.onRead index o)).cycle = {m.cycle with waits := .serving index :: m.cycle.waits} := by
  unfold cycle reports called
  rw [List.filterMap_append]
  simp only [List.filterMap_cons,report,List.filterMap_nil,List.append_nil]
  rfl

theorem shut_cycle (m : Machine) (index : Nat) (rest : List Frame) :
    (Machine.cycle {m with service := shut m.service index,stack := rest}) = m.cycle.shut index (rest.filterMap wait) := by
  unfold cycle Cycle.shut
  rw [Cycle.mk.injEq]
  refine ⟨funext fun i => ?_,rfl,rfl⟩
  by_cases same : i = index
  · subst same
    rw [Function.update_self]
    exact if_pos (congrArg Peer.socket (setPeer_at _ i _))
  · have kept : (shut m.service index).peers i = m.service.peers i := setPeer_off _ _ same
    rw [Function.update_of_ne same,kept]

theorem Registered.cycle {c : Connection} (registered : Registered m c n) (valid : c.socket ≠ invalidSocket) :
    ∃ index, m.cycle.holds index = none ∧ n.cycle = m.cycle.opened index m.service.serial := by
  cases registered with
  | given index bound free =>
    refine ⟨index,if_pos free,?_⟩
    unfold Machine.cycle Cycle.opened
    rw [reports_called _ rfl,Cycle.mk.injEq]
    refine ⟨funext fun i => ?_,rfl,rfl⟩
    show (if ((joined m.service index c).peers i).socket = invalidSocket then none
      else some ((joined m.service index c).peers i).serial) = _
    unfold joined
    by_cases same : i = index
    · subst same
      rw [Function.update_self,setPeer_at]
      exact if_neg valid
    · rw [Function.update_of_ne same,setPeer_off _ _ same]

-- The turns of the slots that one event amounts to.
abbrev Turns (m n : Machine) : Prop := Relation.ReflTransGen Cycle.Turn m.cycle n.cycle

theorem SameSlots.turns (same : SameSlots m n) : Turns m n := by
  unfold Turns
  rw [same.cycle]

theorem Closing.turns (closing : Closing m index serial n) (outside : m.Live index serial → index ∉ m.closingSlots) : Turns m n := by
  cases closing with
  | stale dead => exact .refl
  | called live ip port =>
    unfold Turns
    rw [onDisCon_cycle]
    exact .single (.closing live.held (outside live))

theorem Registered.turns {c : Connection} (registered : Registered m c n) (valid : c.socket ≠ invalidSocket) : Turns m n := by
  obtain ⟨index,free,cycle⟩ := registered.cycle valid
  unfold Turns
  rw [cycle]
  exact .single (.opened free _)

theorem Sending.turns {bytes : List UInt8} (sending : Sending m index serial bytes n) : Turns m n := by
  cases sending with
  | stale dead => exact .refl
  | dropped live illegal => exact .refl
  | @pushed b live legal grown =>
    have same := setPeer_same_slots m index (p := {m.service.peers index with writeBuf := b}) rfl rfl
    exact SameSlots.turns ⟨same.socket,same.serial,rfl,rfl⟩

theorem wrote_same_slots (m : Machine) (o : Outside) (index : Nat) (b : SockBuf) : SameSlots m (m.wrote o index b) := by
  have same := setPeer_same_slots m index (p := {m.service.peers index with writeBuf := b}) rfl rfl
  exact ⟨same.socket,same.serial,rfl,rfl⟩

theorem Writing.turns (writing : Writing m o index n) (outside : index ∉ m.closingSlots) : Turns m n := by
  cases writing with
  | unready => exact .refl
  | failed closing => exact closing.turns fun _ => outside
  | left wrote count some_left => exact (wrote_same_slots m o index _).turns
  | drained wrote count none_left =>
    have same := wrote_same_slots m o index
    exact SameSlots.turns ⟨(same _).socket,(same _).serial,rfl,rfl⟩

theorem Reading.turns (reading : Reading m o index n) (outside : index ∉ m.closingSlots) : Turns m n := by
  cases reading with
  | unready writing => exact writing.turns outside
  | failed b closing =>
    have same := setPeer_same_slots m index (p := {m.service.peers index with readBuf := b}) rfl rfl
    exact .trans same.turns (closing.turns fun _ => outside)
  | read b =>
    have same := setPeer_same_slots m index (p := {m.service.peers index with readBuf := b}) rfl rfl
    unfold Turns
    rw [onRead_cycle,same.cycle]
    exact .single (.serving outside)

-- The application does not call closePeer for a connection that is being closed.
def Unentered (m : Machine) (event : MachineEvent) : Prop :=
  ∀ slot mark, event = .closePeer slot mark → m.Live slot mark → slot ∉ m.closingSlots

theorem MachineStep.genuine {event : MachineEvent} (step : MachineStep m event n) : Genuine m event := by
  cases step with
  | returns genuine ran => exact genuine

-- Every event is some turns of the slots, when no closing is entered again.
theorem step_turns {event : MachineEvent} (sound : m.cycle.Sound) (grounded : Grounded m.stack) (unentered : Unentered m event)
    (step : MachineStep m event n) : Turns m n := by
  have genuine := step.genuine
  have waits {frame : Frame} {w : Wait Nat} {rest : List Frame} (stack : m.stack = frame :: rest) (waiting : wait frame = some w) :
      m.cycle.waits = w :: rest.filterMap wait := by
    show m.stack.filterMap wait = _
    rw [stack,List.filterMap_cons_some waiting]
  cases step_effect step with
  | listening | refused | unasked | waiting | idle => exact .refl
  | connected valid registered => exact registered.turns valid
  | sent sending => exact sending.turns
  | closing closing => exact closing.turns (unentered _ _ rfl)
  | @popped slot _ _ stack b len =>
    exact (setPeer_same_slots m slot (p := {m.service.peers slot with readBuf := b}) rfl rfl).turns
  | onConRefused stack negative closing =>
    exact .head (.returned (waits stack rfl)) (closing.turns fun _ => sound.outside (waits stack rfl))
  | onConDone stack ret => exact .single (.returned (waits stack rfl))
  | onDisConDone stack ret =>
    unfold Turns
    rw [shut_cycle]
    exact .single (.shut (waits stack rfl))
  | onReadRefused stack negative closing =>
    exact .head (.returned (waits stack rfl)) (closing.turns fun _ => sound.outside (waits stack rfl))
  | onReadDone stack writing =>
    exact .head (.returned (waits stack rfl)) (writing.turns (sound.outside (waits stack rfl)))
  | timeout turn reads writes => exact .refl
  | polled turn reads writes => exact .refl
  | accepted reads writes valid registered => exact registered.turns valid
  | ended stack =>
    refine SameSlots.turns ⟨fun _ => rfl,fun _ => rfl,rfl,?_⟩
    rw [stack]
    rfl
  | @served turn k slot after rest stack member reading =>
    have same : SameSlots m {m with stack := .loop turn (k+1) :: rest} := by
      refine ⟨fun _ => rfl,fun _ => rfl,rfl,?_⟩
      rw [stack]
      rfl
    have bottom : rest = [] := by
      rw [stack] at grounded
      exact grounded
    subst bottom
    exact .trans same.turns (reading.turns List.not_mem_nil)

theorem new_sound : new.cycle.Sound := .start (fun _ => rfl) rfl rfl

-- At most a frame of a callback is put on the stack.
inductive Deeper (m n : Machine) : Prop where
  | same (same : n.stack = m.stack)
  | onCon (index : Nat) (pushed : n.stack = .onCon index :: m.stack)
  | onDisCon (index : Nat) (pushed : n.stack = .onDisCon index :: m.stack)
  | onRead (index : Nat) (o : Outside) (pushed : n.stack = .onRead index o :: m.stack)

theorem Deeper.grounded (deeper : Deeper m n) (grounded : Grounded m.stack) : Grounded n.stack := by
  cases deeper with
  | same same => exact same ▸ grounded
  | onCon index pushed | onDisCon index pushed | onRead index o pushed => exact pushed ▸ grounded

theorem Closing.deeper (closing : Closing m index serial n) : Deeper m n := by
  cases closing with
  | stale dead => exact .same rfl
  | called live ip port => exact .onDisCon index rfl

theorem Registered.deeper {c : Connection} (registered : Registered m c n) : Deeper m n := by
  cases registered with
  | given index bound free => exact .onCon index rfl

theorem Sending.deeper {bytes : List UInt8} (sending : Sending m index serial bytes n) : Deeper m n := by
  cases sending with
  | stale | dropped | pushed => exact .same rfl

theorem Writing.deeper (writing : Writing m o index n) : Deeper m n := by
  cases writing with
  | unready | left | drained => exact .same rfl
  | failed closing => exact closing.deeper

theorem Reading.deeper (reading : Reading m o index n) : Deeper m n := by
  cases reading with
  | unready writing => exact writing.deeper
  | failed b closing =>
    cases closing with
    | stale dead => exact .same rfl
    | called live ip port => exact .onDisCon index rfl
  | read b => exact .onRead index o rfl

theorem step_grounded {event : MachineEvent} (grounded : Grounded m.stack) (step : MachineStep m event n) : Grounded n.stack := by
  have genuine := step.genuine
  cases step_effect step with
  | listening | refused | unasked | waiting | idle | popped | timeout => exact grounded
  | connected valid registered => exact registered.deeper.grounded grounded
  | sent sending => exact sending.deeper.grounded grounded
  | closing closing => exact closing.deeper.grounded grounded
  | onConRefused stack negative closing =>
    rw [stack] at grounded
    exact closing.deeper.grounded grounded
  | onConDone stack ret =>
    rw [stack] at grounded
    exact grounded
  | onDisConDone stack ret =>
    rw [stack] at grounded
    exact grounded
  | onReadRefused stack negative closing =>
    rw [stack] at grounded
    exact closing.deeper.grounded grounded
  | onReadDone stack writing =>
    rw [stack] at grounded
    exact writing.deeper.grounded grounded
  | polled turn reads writes => exact genuine.1
  | accepted reads writes valid registered => exact registered.deeper.grounded genuine.1
  | ended stack =>
    rw [stack] at grounded
    obtain rfl : _ = [] := grounded
    trivial
  | served stack member reading =>
    rw [stack] at grounded
    exact reading.deeper.grounded grounded

theorem Closing.socket (closing : Closing m index serial n) (i : Nat) :
    (n.service.peers i).socket = (m.service.peers i).socket := by
  cases closing with
  | stale | called => rfl

theorem Sending.socket {bytes : List UInt8} (sending : Sending m index serial bytes n) (i : Nat) :
    (n.service.peers i).socket = (m.service.peers i).socket := by
  cases sending with
  | stale | dropped => rfl
  | @pushed b live legal grown =>
    exact (setPeer_same_slots m index (p := {m.service.peers index with writeBuf := b}) rfl rfl).socket i

theorem Writing.socket (writing : Writing m o index n) (i : Nat) : (n.service.peers i).socket = (m.service.peers i).socket := by
  cases writing with
  | unready => rfl
  | failed closing => exact closing.socket i
  | left | drained => exact (wrote_same_slots m o index _).socket i

theorem Reading.socket (reading : Reading m o index n) (i : Nat) : (n.service.peers i).socket = (m.service.peers i).socket := by
  have same (b : SockBuf) := setPeer_same_slots m index (p := {m.service.peers index with readBuf := b}) rfl rfl
  cases reading with
  | unready writing => exact writing.socket i
  | failed b closing => exact (closing.socket i).trans ((same b).socket i)
  | read b => exact (same b).socket i

-- A slot with a socket is one of the table.
def Bounded (m : Machine) : Prop := ∀ i, (m.service.peers i).socket ≠ invalidSocket → i < maxPeerNum

theorem Bounded.same (bounded : Bounded m) (same : ∀ i, (n.service.peers i).socket = (m.service.peers i).socket) : Bounded n :=
  fun i valid => bounded i (same i ▸ valid)

theorem Registered.bounded {c : Connection} (registered : Registered m c n) (bounded : Bounded m) : Bounded n := by
  cases registered with
  | given slot bound free =>
    intro i valid
    by_cases same : i = slot
    · exact same ▸ bound
    · have kept : (joined m.service slot c).peers i = m.service.peers i := setPeer_off _ _ same
      refine bounded i ?_
      rw [← kept]
      exact valid

theorem step_bounded {event : MachineEvent} (bounded : Bounded m) (step : MachineStep m event n) : Bounded n := by
  cases step_effect step with
  | listening | refused | unasked | waiting | idle | onConDone | timeout | polled | ended => exact bounded
  | connected valid registered => exact registered.bounded bounded
  | sent sending => exact bounded.same sending.socket
  | closing closing => exact bounded.same closing.socket
  | @popped slot _ _ stack b len =>
    exact bounded.same (setPeer_same_slots m slot (p := {m.service.peers slot with readBuf := b}) rfl rfl).socket
  | onConRefused stack negative closing => exact bounded.same closing.socket
  | @onDisConDone slot rest stack ret =>
    intro i valid
    by_cases same : i = slot
    · have closed : (shut m.service slot).peers slot = {m.service.peers slot with socket := invalidSocket} := setPeer_at _ _ _
      subst same
      exact absurd (congrArg Peer.socket closed) valid
    · have kept : (shut m.service slot).peers i = m.service.peers i := setPeer_off _ _ same
      refine bounded i ?_
      rw [← kept]
      exact valid
  | onReadRefused stack negative closing => exact bounded.same closing.socket
  | onReadDone stack writing => exact bounded.same writing.socket
  | accepted reads writes valid registered => exact registered.bounded bounded
  | served stack member reading => exact bounded.same reading.socket

theorem closingSlots_few (sound : m.cycle.Sound) (bounded : Bounded m) : m.closingSlots.length ≤ maxPeerNum := by
  have slots : m.closingSlots ⊆ List.range maxPeerNum := by
    intro i member
    obtain ⟨k,holds⟩ := sound.held i member
    by_cases closed : (m.service.peers i).socket = invalidSocket
    · rw [show m.cycle.holds i = none from if_pos closed] at holds
      cases holds
    · exact List.mem_range.mpr (bounded i closed)
  have few := (List.subperm_of_subset sound.once slots).length_le
  rw [List.length_range] at few
  exact few

theorem onDisCon_returns {rest : List Frame} (stack : m.stack = .onDisCon index :: rest) (ret : Int) :
    ∃ n, run (.resume ret) m = .ok () n := by
  have start : run (.resume ret) m = onDisConDone index {m with stack := rest} := by
    show resume ret m = _
    refine (bind_ok rfl _).trans ?_
    rw [stack]
    rfl
  rw [start]
  exact ⟨_,onDisConDone_shut index _⟩

-- A run whose steps do not enter a closing again.
theorem closed_path (path : Path MachineStep new taken last) (unentered : ∀ t ∈ taken, Unentered t.before t.event) :
    last.cycle.Sound ∧ Bounded last := by
  have kept := path.guarded (fun m : Machine => m.cycle.Sound ∧ Grounded m.stack ∧ Bounded m) Unentered
    ⟨new_sound,trivial,fun _ valid => absurd rfl valid⟩ unentered
    fun _ _ _ ⟨sound,grounded,bounded⟩ unentered step =>
      ⟨sound.turns (step_turns sound grounded unentered step),step_grounded grounded step,step_bounded bounded step⟩
  exact ⟨kept.1,kept.2.2⟩

end PcNetwork.NetSelect.Machine
