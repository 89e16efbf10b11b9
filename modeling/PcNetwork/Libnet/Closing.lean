import PcNetwork.Libnet.Handles
import PcNetwork.Library.Lifecycle
import Mathlib.Data.List.Perm.Subperm

namespace PcNetwork.Libnet.IocpService
variable {s t u : IocpService} {index i : Nat} {serial : UInt64} {context : Option Nat} {size : UInt32} {sys : System}

def report : Callback → Option (Report Nat UInt64)
  | .onCon index serial _ _ => some (.up index serial)
  | .onDisCon index serial _ _ => some (.down index serial)
  | .onRead _ _ => none

def reports (s : IocpService) : List (Report Nat UInt64) := s.callbacks.filterMap report

def wait : Frame → Wait Nat
  | .onDisCon index _ _ => .closing index
  | .onCon index _ | .onRead index _ _ => .serving index

-- The service as slots that connections take and leave.
def cycle (s : IocpService) : Cycle Nat UInt64 where
  holds i := if (s.peers i).socket = invalidSocket then none else some (s.peers i).serial
  waits := s.stack.map wait
  log := s.reports

-- The slots that a waiting closePeer is about to free.
def closingSlots (s : IocpService) : List Nat := closings s.cycle.waits

theorem Live.held (live : Live s index serial) : s.cycle.holds index = some serial := by
  show (if (s.peers index).socket = invalidSocket then none else some (s.peers index).serial) = _
  rw [if_neg live.2,live.1]

theorem free_held (free : (s.peers index).socket = invalidSocket) : s.cycle.holds index = none := if_pos free

theorem SameSlots.holds (same : SameSlots s t) : t.cycle.holds = s.cycle.holds := by
  funext i
  show (if (t.peers i).socket = invalidSocket then none else some (t.peers i).serial) = _
  rw [same.socket,same.serials]
  rfl

theorem SameSlots.cycle (same : SameSlots s t) (stack : t.stack = s.stack) (callbacks : t.callbacks = s.callbacks) :
    t.cycle = s.cycle := by
  have holds := same.holds
  unfold IocpService.cycle reports at holds ⊢
  rw [stack,callbacks,Cycle.mk.injEq]
  exact ⟨holds,rfl,rfl⟩

theorem reports_called (s : IocpService) {c : Callback} {r : Report Nat UInt64} (reported : report c = some r) (frame : Frame) :
    (s.called c frame).reports = s.reports ++ [r] := by
  unfold reports
  rw [called_callbacks,List.filterMap_append,List.filterMap_cons_some reported,List.filterMap_nil]

-- closePeer calls onDisCon for a connection that is not being closed.
theorem onDisCon_cycle (s : IocpService) (index : Nat) (serial : UInt64) (ip : String) (port : UInt32) (context : Option Nat) :
    (s.called (.onDisCon index serial ip port) (.onDisCon index serial context)).cycle = s.cycle.closing index serial := by
  unfold cycle Cycle.closing
  rw [reports_called s rfl]
  rfl

theorem onRead_cycle (s : IocpService) (index : Nat) (serial : UInt64) (k : Nat) :
    (s.called (.onRead index serial) (.onRead index serial k)).cycle = {s.cycle with waits := .serving index :: s.cycle.waits} := by
  unfold cycle reports
  rw [called_callbacks,List.filterMap_append]
  simp only [List.filterMap_cons,report,List.filterMap_nil,List.append_nil]
  rfl

theorem shut_cycle (s : IocpService) (index : Nat) (rest : List Frame) (closed : List Int) :
    ({s with stack := rest,closed}.setPeer index {s.peers index with socket := invalidSocket}).cycle =
      s.cycle.shut index (rest.map wait) := by
  unfold cycle Cycle.shut
  rw [Cycle.mk.injEq]
  refine ⟨funext fun i => ?_,rfl,rfl⟩
  by_cases same : i = index
  · subst same
    rw [Function.update_self,setPeer_at]
    rfl
  · rw [Function.update_of_ne same,setPeer_off _ _ same]

theorem Registered.cycle {c : Connection} (registered : Registered s c t) (valid : c.socket ≠ invalidSocket) :
    ∃ index, s.cycle.holds index = none ∧ t.cycle = s.cycle.opened index s.serial := by
  cases registered with
  | given index bound free =>
    refine ⟨index,free_held free,?_⟩
    unfold IocpService.cycle Cycle.opened
    rw [reports_called _ rfl,Cycle.mk.injEq]
    refine ⟨funext fun i => ?_,rfl,rfl⟩
    show (if ((s.setPeer index (s.joined index c)).peers i).socket = invalidSocket then none
      else some ((s.setPeer index (s.joined index c)).peers i).serial) = _
    by_cases same : i = index
    · subst same
      rw [Function.update_self,setPeer_at]
      exact if_neg valid
    · rw [Function.update_of_ne same,setPeer_off _ _ same]

-- The turns of the slots that one event amounts to.
abbrev Turns (s t : IocpService) : Prop := Relation.ReflTransGen Cycle.Turn s.cycle t.cycle

theorem SameSlots.turns (same : SameSlots s t) (stack : t.stack = s.stack) (callbacks : t.callbacks = s.callbacks) : Turns s t := by
  unfold Turns
  rw [same.cycle stack callbacks]

theorem SameSlots.closing (same : SameSlots s t) (stack : t.stack = s.stack) (callbacks : t.callbacks = s.callbacks)
    (live : Live s index serial) (outside : index ∉ s.closingSlots) (ip : String) (port : UInt32) (context : Option Nat) :
    Turns s (t.called (.onDisCon index serial ip port) (.onDisCon index serial context)) := by
  unfold Turns
  rw [onDisCon_cycle,same.cycle stack callbacks]
  exact .single (.closing live.held outside)

theorem Registered.turns {c : Connection} (registered : Registered s c t) (valid : c.socket ≠ invalidSocket) : Turns s t := by
  obtain ⟨index,free,cycle⟩ := registered.cycle valid
  unfold Turns
  rw [cycle]
  exact .single (.opened free _)

theorem Closing.turns (closing : Closing s index serial context t)
    (outside : Live s index serial → index ∉ s.closingSlots) : Turns s t := by
  cases closing with
  | stale dead => exact ((SameSlots.refl s).released context).turns (released_stack s _) (released_callbacks s _)
  | called live ip port => exact (SameSlots.refl s).closing rfl rfl live (outside live) ip port context

theorem Receiving.turns (receiving : Receiving sys s index serial context t) (outside : index ∉ s.closingSlots) : Turns s t := by
  have same := receiving.same_slots
  cases receiving with
  | stale dead => exact same.turns (released_stack s _) (released_callbacks s _)
  | posted live b => exact same.turns (released_stack _ _) (released_callbacks _ _)
  | refused no live b ip port =>
    have before : SameSlots s (s.setPeer index {s.peers index with readBuf := b}).leaked := by
      apply SameSlots.leaked
      exact (SameSlots.refl s).setPeer rfl rfl
    exact before.closing rfl rfl live outside ip port context

theorem Sending.turns {buf : List UInt8} (sending : Sending s index serial buf t) : Turns s t := by
  have same := sending.same_slots
  cases sending with
  | stale dead => exact .refl
  | queued live busy b appended => exact same.turns rfl rfl
  | kicked live idle b appended => exact same.turns rfl rfl

theorem Writing.turns {k : Nat} (writing : Writing sys s index size k t) (valid : (s.peers index).socket ≠ invalidSocket)
    (outside : index ∉ s.closingSlots) : Turns s t := by
  have same := writing.same_slots
  cases writing with
  | done merged count nothing => exact same.turns (released_stack _ _) (released_callbacks _ _)
  | posted merged count something => exact same.turns (released_stack _ _) (released_callbacks _ _)
  | @refused b c n d no merged count something ip port =>
    have before : SameSlots s (s.setPeer index {s.peers index with wsaSend := true,writeBuf := b,writeBufBackup := c}).leaked := by
      apply SameSlots.leaked
      exact (SameSlots.refl s).setPeer rfl rfl
    exact before.closing rfl rfl ⟨rfl,valid⟩ outside ip port _

theorem Completing.turns {op : Operation} (completing : Completing sys s op size t) (outside : op.index ∉ s.closingSlots) :
    Turns s t := by
  cases completing with
  | ignored shut => exact .refl
  | ended valid read zero b ip port =>
    have before : SameSlots s (s.setPeer op.index {s.peers op.index with readBuf := b}) := (SameSlots.refl s).setPeer rfl rfl
    exact before.closing rfl rfl ⟨rfl,valid⟩ outside ip port _
  | read valid read some_bytes b =>
    have before : SameSlots s (s.setPeer op.index {s.peers op.index with readBuf := b}) := (SameSlots.refl s).setPeer rfl rfl
    unfold Turns
    rw [onRead_cycle,before.cycle rfl rfl]
    exact .single (.serving outside)
  | wrote valid write writing => exact writing.turns valid outside

-- The application does not call closePeer for a connection that is being closed.
def Unentered (s : IocpService) (input : IocpInput) : Prop :=
  ∀ slot mark, input.event = .closePeer slot mark → Live s slot mark → slot ∉ s.closingSlots

-- Every event is some turns of the slots, when no closing is entered again.
theorem step_turns {input : IocpInput} (sound : s.cycle.Sound) (unentered : Unentered s input) (step : IocpStep s input t) :
    Turns s t := by
  obtain ⟨event,sys⟩ := input
  have genuine := step.genuine
  have idle (empty : s.stack = []) (slot : Nat) : slot ∉ s.closingSlots := by
    unfold closingSlots cycle
    rw [empty]
    exact List.not_mem_nil
  have waits {frame : Frame} {rest : List Frame} (stack : s.stack = frame :: rest) : s.cycle.waits = wait frame :: rest.map wait := by
    show s.stack.map wait = _
    rw [stack]
    rfl
  cases step_effect step with
  | refused | outside | unasked | quiet | timeout | unknown | missing => exact .refl
  | connected valid registered => exact registered.turns valid
  | accepted registered => exact registered.turns (genuine.2 _ rfl)
  | listening => exact .refl
  | sent sending => exact sending.turns
  | closing closing => exact closing.turns (unentered _ _ rfl)
  | consumed stack b len =>
    refine SameSlots.turns ?_ rfl rfl
    exact (SameSlots.refl s).setPeer rfl rfl
  | onConDone stack receiving =>
    exact .head (.returned (waits stack)) (receiving.turns (sound.outside (waits stack)))
  | onReadDone stack nonneg receiving =>
    exact .head (.returned (waits stack)) (receiving.turns (sound.outside (waits stack)))
  | onReadRefused stack negative closing =>
    exact .head (.returned (waits stack)) (closing.turns fun _ => sound.outside (waits stack))
  | @onDisConDone slot mark k rest stack ret =>
    have same := ((SameSlots.refl _).released k).cycle
      (s := {s with stack := rest,closed := s.closed ++ [(s.peers slot).socket]}.setPeer slot {s.peers slot with socket := invalidSocket})
      (released_stack _ _) (released_callbacks _ _)
    unfold Turns
    rw [same,shut_cycle]
    exact .single (.shut (waits stack))
  | deleted found closing => exact closing.turns fun _ => idle genuine.1 _
  | completed found completing => exact completing.turns (idle genuine.1 _)

theorem new_sound : new.cycle.Sound := .start (fun _ => rfl) rfl rfl

theorem closingSlots_few (sound : s.cycle.Sound) (handles : Handles s) :
    (∀ i ∈ s.closingSlots, i < maxPeerNum) ∧ s.closingSlots.length ≤ maxPeerNum := by
  have inside (i : Nat) (member : i ∈ s.closingSlots) : i < maxPeerNum := by
    obtain ⟨k,holds⟩ := sound.held i member
    by_cases shut : (s.peers i).socket = invalidSocket
    · rw [free_held shut] at holds
      cases holds
    · exact handles.inside _ (handles.known i shut)
  have slots : s.closingSlots ⊆ List.range maxPeerNum := fun i member => List.mem_range.mpr (inside i member)
  have few := (List.subperm_of_subset sound.once slots).length_le
  rw [List.length_range] at few
  exact ⟨inside,few⟩

theorem onDisCon_returns {mark : UInt64} {k : Option Nat} {rest : List Frame} (stack : s.stack = .onDisCon index mark k :: rest)
    (bound : index < maxPeerNum) (ret : Int) : ∃ t, run ⟨.resume ret,sys⟩ s = .ok () t := by
  have deleted (v : IocpService) : ∃ w, deletePeer index v = .ok () w := by
    unfold deletePeer
    rw [bind_ok (getPeer_ok bound v)]
    exact ⟨_,rfl⟩
  have freed (v : IocpService) : ∃ w, deleteIOCxt k v = .ok () w := by
    cases k <;> exact ⟨_,rfl⟩
  have start : run ⟨.resume ret,sys⟩ s = onDisConDone index k {s with stack := rest} := by
    show resume sys ret s = _
    refine (bind_ok rfl _).trans ?_
    rw [stack]
    rfl
  obtain ⟨v,shut⟩ := deleted {s with stack := rest,closed := s.closed ++ [(s.peers index).socket]}
  obtain ⟨w,ended⟩ := freed v
  refine ⟨w,?_⟩
  rw [start]
  unfold onDisConDone
  exact (bind_ok rfl _).trans ((bind_ok shut _).trans ended)

-- A run whose steps do not enter a closing again.
theorem closed_path (path : Path IocpStep new taken last) (unentered : ∀ t ∈ taken, Unentered t.before t.event) :
    last.cycle.Sound ∧ Handles last := by
  have sound := path.guarded (fun s => s.cycle.Sound) Unentered new_sound unentered
    fun _ _ _ sound unentered step => sound.turns (step_turns sound unentered step)
  exact ⟨sound,new_handles.of_path path⟩

end PcNetwork.Libnet.IocpService
