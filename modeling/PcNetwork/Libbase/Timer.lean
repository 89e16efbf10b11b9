import PcNetwork.Library.Loop
import PcNetwork.Library.Path
import Mathlib.Algebra.Group.Nat.Defs
import Mathlib.Logic.Function.Basic

namespace PcNetwork.Libbase

-- A delegate is told by a number, and one that is not set is none.
structure TimerInfo where
  func : Option Nat
  timeStamp : UInt64
  timeInterval : UInt32

def TimerInfo.zero : TimerInfo := ⟨none,0,0⟩

inductive TimerEntry where
  | registered (slot : Fin 10) (func : Nat) (interval : UInt32) (stamp : UInt64)
  | unregistered (slot : Fin 10)
  | fired (slot : Fin 10) (func : Nat) (stamp : UInt64)
  | stopped (slot : Fin 10)
deriving DecidableEq

def TimerEntry.slot : TimerEntry → Fin 10
  | .registered i _ _ _ => i
  | .unregistered i => i
  | .fired i _ _ => i
  | .stopped i => i

-- The timers and the static variable of run, which has no value before its first call.
-- The clock is the last time stamp that was read.
structure Timer where
  timers : Fin 10 → TimerInfo
  lastTimeStamp : Option UInt64
  clock : UInt64
  log : List TimerEntry

inductive TimerCall where
  | registerTimer (onTime : Option Nat) (timeInterval : UInt32) (stamp : UInt64)
  | unRegisterTimer (timerId : UInt32)

-- What a callback does with the timers while it runs, and what it returns.
structure OnTimeCallback where
  calls : List TimerCall
  returned : Bool

namespace Timer

def new (clock : UInt64) : Timer := ⟨fun _ => .zero,none,clock,[]⟩

-- The loop over the timers does not stop at the first one that is free.
def free (s : Timer) : Option (Fin 10) :=
  (List.finRange 10).foldl (fun timerInfo i => if (s.timers i).func = none then some i else timerInfo) none

-- No result for a call that throws, and for one without a free timer, which writes
-- through the null pointer.
def registerTimer (s : Timer) (onTime : Option Nat) (timeInterval : UInt32) (stamp : UInt64) : Option Timer :=
  match onTime with
  | none => none
  | some func =>
    if timeInterval = 0 then none
    else s.free.map fun index => {s with
      timers := Function.update s.timers index ⟨some func,stamp,timeInterval⟩,
      clock := stamp,
      log := s.log ++ [.registered index func timeInterval stamp]}

-- No result for a number that is not one of a timer. The log has an entry of its own for
-- the call that run makes where a callback returns false.
def unRegisterTimer (s : Timer) (timerId : UInt32) (entry : Fin 10 → TimerEntry) : Option Timer :=
  if inside : timerId.toNat < 10 then some {s with
    timers := Function.update s.timers ⟨timerId.toNat,inside⟩ .zero,
    log := s.log ++ [entry ⟨timerId.toNat,inside⟩]}
  else none

def perform (s : Timer) : TimerCall → Option Timer
  | .registerTimer onTime timeInterval stamp => s.registerTimer onTime timeInterval stamp
  | .unRegisterTimer timerId => s.unRegisterTimer timerId .unregistered

def fire (s : Timer) (i : Fin 10) (func : Nat) (timeStamp : UInt64) (callback : OnTimeCallback) : Option Timer := do
  let s ← callback.calls.foldlM perform {s with log := s.log ++ [.fired i func timeStamp]}
  if callback.returned then
    some {s with timers := Function.update s.timers i {s.timers i with timeStamp := timeStamp}}
  else s.unRegisterTimer (UInt32.ofNat i) .stopped

-- The product is one of 32 bits, whatever it is compared with.
def due (info : TimerInfo) (timeStamp : UInt64) : Bool :=
  (info.timeInterval*1000*1000).toUInt64 ≤ timeStamp-info.timeStamp

def visit (timeStamp : UInt64) (callbacks : Fin 10 → OnTimeCallback) (s : Timer) (i : Fin 10) : Option Timer :=
  match (s.timers i).func with
  | none => some s
  | some func =>
    if (s.timers i).timeStamp = 0 then some s
    else if due (s.timers i) timeStamp then s.fire i func timeStamp (callbacks i)
    else some s

-- The first time stamp is read for the static variable, in the first call only.
def run (s : Timer) (first timeStamp : UInt64) (callbacks : Fin 10 → OnTimeCallback) : Option Timer :=
  let lastTimeStamp := s.lastTimeStamp.getD first
  let s := {s with lastTimeStamp := some lastTimeStamp, clock := timeStamp}
  if 1000*1000 > timeStamp-lastTimeStamp then some s
  else (List.finRange 10).foldlM (visit timeStamp callbacks) s

end Timer

inductive TimerEvent where
  | calls (call : TimerCall)
  | run (first timeStamp : UInt64) (callbacks : Fin 10 → OnTimeCallback)

def TimerCall.After (clock : UInt64) : TimerCall → Prop
  | .registerTimer _ _ stamp => clock ≤ stamp
  | .unRegisterTimer _ => True

-- Time stamps do not decrease.
def Timer.InOrder (s : Timer) : TimerEvent → Prop
  | .calls call => call.After s.clock
  | .run first timeStamp callbacks =>
    s.clock ≤ timeStamp ∧ (s.lastTimeStamp = none → s.clock ≤ first ∧ first ≤ timeStamp) ∧
      ∀ i, ∀ call ∈ (callbacks i).calls, call.After timeStamp

def Timer.handle (s : Timer) : TimerEvent → Option Timer
  | .calls call => s.perform call
  | .run first timeStamp callbacks => s.run first timeStamp callbacks

def TimerStep (s : Timer) (event : TimerEvent) (t : Timer) : Prop := s.InOrder event ∧ s.handle event = some t

-- What the log says about a timer: its callback, its interval, the last time it was
-- registered or called, and whether it has been called.
structure Armed where
  func : Nat
  interval : Nat
  since : Nat
  called : Bool
deriving DecidableEq

-- A callback that returns false ends the timer that it was called for, not one that it has
-- registered under the same number meanwhile.
def table (before : Fin 10 → Option Armed) : TimerEntry → Fin 10 → Option Armed
  | .registered i func interval stamp => Function.update before i (some ⟨func,interval.toNat,stamp.toNat,false⟩)
  | .unregistered i => Function.update before i none
  | .fired i _ stamp => Function.update before i ((before i).map fun armed => {armed with since := stamp.toNat,called := true})
  | .stopped i => Function.update before i ((before i).filter fun armed => !armed.called)

def armed (log : List TimerEntry) : Fin 10 → Option Armed := log.foldl table fun _ => none

def Armed.Due (armed : Armed) (stamp : UInt64) : Prop := armed.since+armed.interval*1000000 ≤ stamp.toNat

-- No callback is called before its interval has passed.
def NeverEarly (log : List TimerEntry) : Prop :=
  ∀ earlier i func stamp later, log = earlier ++ .fired i func stamp :: later →
    ∃ timer, armed earlier i = some timer ∧ timer.func = func ∧ timer.Due stamp

-- What first happens to the timer is that it is called, or that a callback of an earlier
-- timer unregisters it.
def Served (i : Fin 10) (stamp : UInt64) (added : List TimerEntry) : Prop :=
  ∃ earlier entry later, added = earlier ++ entry :: later ∧
    ((∃ func, entry = .fired i func stamp) ∨ entry = .unregistered i) ∧
    ∀ e ∈ earlier, e.slot ≠ i ∧ ∀ j func s, e = .fired j func s → j < i

-- In a run after the first second every timer that is due is served.
def ServesDue (before : Timer) (event : TimerEvent) (after : Timer) : Prop :=
  ∀ first stamp callbacks, event = .run first stamp callbacks →
    (before.lastTimeStamp.getD first).toNat+1000000 ≤ stamp.toNat →
    ∃ added, after.log = before.log ++ added ∧
      ∀ i timer, armed before.log i = some timer → timer.Due stamp → Served i stamp added

-- An entry that the earlier ones allow.
def Legit (before : Fin 10 → Option Armed) : TimerEntry → Prop
  | .registered i _ _ _ => before i = none
  | .unregistered _ | .stopped _ => True
  | .fired i func stamp => ∃ timer, before i = some timer ∧ timer.func = func ∧ timer.Due stamp

def Sound (log : List TimerEntry) : Prop :=
  ∀ earlier entry later, log = earlier ++ entry :: later → Legit (armed earlier) entry

theorem armed_snoc (log : List TimerEntry) (entry : TimerEntry) : armed (log ++ [entry]) = table (armed log) entry := by
  rw [armed,List.foldl_append]
  rfl

theorem armed_other (log added : List TimerEntry) (i : Fin 10) (others : ∀ e ∈ added, e.slot ≠ i) :
    armed (log ++ added) i = armed log i := by
  induction added using List.reverseRecOn with
  | nil => rw [List.append_nil]
  | append_singleton added entry ih =>
    have apart := others entry (List.mem_append_right _ (List.mem_singleton.mpr rfl))
    rw [← List.append_assoc,armed_snoc,← ih fun e member => others e (List.mem_append_left _ member)]
    cases entry <;> exact Function.update_of_ne (Ne.symm apart) _ _

theorem sound_nil : Sound [] := by
  intro earlier entry later split
  simp at split

theorem Sound.snoc (sound : Sound log) (legit : Legit (armed log) entry) : Sound (log ++ [entry]) := by
  intro earlier e later split
  rcases List.eq_nil_or_concat later with rfl | ⟨most,final,rfl⟩
  · obtain ⟨rfl,same⟩ := List.append_inj' split rfl
    cases same
    exact legit
  · rw [List.concat_eq_append,← List.cons_append,← List.append_assoc] at split
    exact sound _ _ _ (List.append_inj' split rfl).1

theorem Sound.never_early (sound : Sound log) : NeverEarly log :=
  fun _ i func stamp _ split => sound _ (.fired i func stamp) _ split

-- A timer as the log has it. While a callback runs, the time stamp of its timer is not yet
-- the one of the run.
def TimerInfo.Shown (info : TimerInfo) (running : Option UInt64) : Option Armed → Prop
  | none => info.func = none
  | some timer => info.func = some timer.func ∧ timer.interval = info.timeInterval.toNat ∧
      timer.since = (if timer.called then running.getD info.timeStamp else info.timeStamp).toNat

structure Kept (running : Fin 10 → Option UInt64) (timers : Fin 10 → TimerInfo) (log : List TimerEntry) : Prop where
  sound : Sound log
  shown : ∀ i, (timers i).Shown (running i) (armed log i)

def resting : Fin 10 → Option UInt64 := fun _ => none

theorem new_kept (clock : UInt64) : Kept resting (Timer.new clock).timers (Timer.new clock).log := ⟨sound_nil,fun _ => rfl⟩

theorem free_found {s : Timer} (found : s.free = some i) : (s.timers i).func = none := by
  have step : ∀ j, s.free = some j → (s.timers j).func = none := by
    refine List.foldlRecOn (motive := fun found => ∀ j, found = some j → (s.timers j).func = none) _ _ (by simp) ?_
    intro found free i _ j chosen
    split at chosen
    next empty =>
      cases chosen
      exact empty
    next => exact free j chosen
  exact step i found

-- One timer is written.
theorem Kept.written {i : Fin 10} {info : TimerInfo} (kept : Kept running timers log) (legit : Legit (armed log) entry)
    (entered : table (armed log) entry = Function.update (armed log) i timer) (shown : info.Shown (running i) timer) :
    Kept running (Function.update timers i info) (log ++ [entry]) := by
  refine ⟨kept.sound.snoc legit,fun j => ?_⟩
  rw [armed_snoc,entered]
  by_cases same : j = i
  · subst same
    rw [Function.update_self,Function.update_self]
    exact shown
  · rw [Function.update_of_ne same,Function.update_of_ne same]
    exact kept.shown j

theorem registerTimer_returned {s t : Timer} (ran : s.registerTimer onTime timeInterval stamp = some t) :
    ∃ func i, onTime = some func ∧ (s.timers i).func = none ∧ t = {s with
      timers := Function.update s.timers i ⟨some func,stamp,timeInterval⟩,
      clock := stamp,
      log := s.log ++ [.registered i func timeInterval stamp]} := by
  cases onTime with
  | none => cases ran
  | some func =>
    simp only [Timer.registerTimer] at ran
    split at ran
    · cases ran
    · obtain ⟨i,found,rfl⟩ := Option.map_eq_some_iff.mp ran
      exact ⟨func,i,rfl,free_found found,rfl⟩

theorem unRegisterTimer_returned {s t : Timer} (ran : s.unRegisterTimer timerId entry = some t) :
    ∃ i : Fin 10, i.val = timerId.toNat ∧ t = {s with
      timers := Function.update s.timers i .zero,
      log := s.log ++ [entry i]} := by
  simp only [Timer.unRegisterTimer] at ran
  split at ran
  · cases ran
    exact ⟨_,rfl,rfl⟩
  · cases ran

-- What a run logs by itself is about the timers that it has looked at.
def TimerEntry.Within (slots : List (Fin 10)) : TimerEntry → Prop
  | .fired i _ _ | .stopped i => i ∈ slots
  | .registered _ _ _ _ | .unregistered _ => True

theorem TimerEntry.Within.wider {entry : TimerEntry} (within : entry.Within slots) (more : slots ⊆ others) : entry.Within others := by
  cases entry with
  | fired i _ _ => exact more within
  | stopped i => exact more within
  | registered _ _ _ _ => trivial
  | unregistered _ => trivial

def Extends (P : TimerEntry → Prop) (s t : Timer) : Prop := ∃ added, t.log = s.log ++ added ∧ ∀ e ∈ added, P e

theorem Extends.refl (P : TimerEntry → Prop) (s : Timer) : Extends P s s := ⟨[],(List.append_nil _).symm,by simp⟩

theorem Extends.trans (first : Extends P s t) (second : Extends P t u) : Extends P s u := by
  obtain ⟨one,logged,allowed⟩ := first
  obtain ⟨two,logged_too,allowed_too⟩ := second
  refine ⟨one ++ two,by rw [logged_too,logged,List.append_assoc],?_⟩
  intro e member
  rcases List.mem_append.mp member with early | late
  · exact allowed e early
  · exact allowed_too e late

theorem perform_kept {s t : Timer} (kept : Kept running s.timers s.log) (ran : s.perform call = some t) :
    Kept running t.timers t.log ∧ Extends (·.Within []) s t := by
  cases call with
  | registerTimer onTime timeInterval now =>
    obtain ⟨func,i,rfl,free,rfl⟩ := registerTimer_returned ran
    have unarmed : armed s.log i = none := by
      have shown := kept.shown i
      cases here : armed s.log i with
      | none => rfl
      | some timer =>
        rw [here] at shown
        rw [shown.1] at free
        cases free
    refine ⟨kept.written unarmed rfl ⟨rfl,rfl,rfl⟩,[.registered i func timeInterval now],rfl,?_⟩
    exact List.forall_mem_singleton.mpr trivial
  | unRegisterTimer timerId =>
    obtain ⟨i,_,rfl⟩ := unRegisterTimer_returned ran
    refine ⟨kept.written trivial rfl rfl,[.unregistered i],rfl,?_⟩
    exact List.forall_mem_singleton.mpr trivial

-- Where a run looks at a timer: its time stamp is not taken for that of a free one, it is not
-- later than the run's, and the time that has passed is not between what 32 bits hold of the
-- interval and the interval itself.
def TimerInfo.Clear (info : TimerInfo) (stamp : UInt64) : Prop :=
  (info.timeStamp = 0 → stamp.toNat < info.timeInterval.toNat*1000000) ∧ info.timeStamp ≤ stamp ∧
  (stamp.toNat-info.timeStamp.toNat < info.timeInterval.toNat*1000000 % 2^32 ∨
    info.timeInterval.toNat*1000000 ≤ stamp.toNat-info.timeStamp.toNat)

instance (info : TimerInfo) (stamp : UInt64) : Decidable (info.Clear stamp) := inferInstanceAs (Decidable (_ ∧ _))

-- Where a callback has registered a timer that has got the callback's own number, it returns
-- true and no time has passed.
def Timer.Spares (s : Timer) (i : Fin 10) (func : Nat) (stamp : UInt64) (callback : OnTimeCallback) : Prop :=
  ∀ t ∈ callback.calls.foldlM Timer.perform {s with log := s.log ++ [.fired i func stamp]},
    ∀ timer ∈ armed t.log i, timer.called = false → callback.returned = true ∧ timer.since = stamp.toNat

instance (s : Timer) (i : Fin 10) (func : Nat) (stamp : UInt64) (callback : OnTimeCallback) :
    Decidable (s.Spares i func stamp callback) := inferInstanceAs (Decidable (∀ t ∈ _,∀ timer ∈ armed (Timer.log t) i,_))

def Timer.VisitMeets (s : Timer) (stamp : UInt64) (callbacks : Fin 10 → OnTimeCallback) (i : Fin 10) : Prop :=
  ∀ func ∈ (s.timers i).func, (s.timers i).Clear stamp ∧
    ((s.timers i).timeStamp ≠ 0 → Timer.due (s.timers i) stamp = true → s.Spares i func stamp (callbacks i))

instance (s : Timer) (stamp : UInt64) (callbacks : Fin 10 → OnTimeCallback) (i : Fin 10) :
    Decidable (s.VisitMeets stamp callbacks i) := inferInstanceAs (Decidable (∀ func ∈ _,_ ∧ (_ → _ → _)))

-- Each timer when the loop comes to it.
def Timer.RunMeets (stamp : UInt64) (callbacks : Fin 10 → OnTimeCallback) : List (Fin 10) → Timer → Prop
  | [],_ => True
  | i :: rest,s => s.VisitMeets stamp callbacks i ∧ ∀ t ∈ s.visit stamp callbacks i, Timer.RunMeets stamp callbacks rest t

instance Timer.decideRunMeets (stamp : UInt64) (callbacks : Fin 10 → OnTimeCallback) :
    ∀ (slots : List (Fin 10)) (s : Timer), Decidable (Timer.RunMeets stamp callbacks slots s)
  | [],_ => .isTrue trivial
  | i :: rest,s =>
    have (t : Timer) : Decidable (Timer.RunMeets stamp callbacks rest t) := Timer.decideRunMeets stamp callbacks rest t
    inferInstanceAs (Decidable (s.VisitMeets stamp callbacks i ∧ ∀ t ∈ s.visit stamp callbacks i,Timer.RunMeets stamp callbacks rest t))

theorem Timer.RunMeets.start {s : Timer} (meets : RunMeets stamp callbacks (before ++ after) s) : RunMeets stamp callbacks before s := by
  induction before generalizing s with
  | nil => trivial
  | cons i rest ih => exact ⟨meets.1,fun t ran => ih (meets.2 t ran)⟩

theorem Timer.RunMeets.rest {s : Timer} (meets : RunMeets stamp callbacks (before ++ after) s)
    (ran : before.foldlM (visit stamp callbacks) s = some t) : RunMeets stamp callbacks after t := by
  induction before generalizing s with
  | nil =>
    cases ran
    exact meets
  | cons i rest ih =>
    obtain ⟨u,first,later⟩ := Option.bind_eq_some_iff.mp ran
    exact ih (meets.2 u first) later

-- There the test is the one on the numbers.
theorem due_exact {info : TimerInfo} {stamp : UInt64} (clear : info.Clear stamp) :
    (info.timeStamp ≠ 0 ∧ Timer.due info stamp = true) ↔ info.timeStamp.toNat+info.timeInterval.toNat*1000000 ≤ stamp.toNat := by
  obtain ⟨begun,past,outside⟩ := clear
  have product : (info.timeInterval*1000*1000).toNat = info.timeInterval.toNat*1000000 % 2^32 := by
    rw [UInt32.toNat_mul,UInt32.toNat_mul]
    simp
    omega
  have since := UInt64.le_iff_toNat_le.mp past
  rw [Timer.due,decide_eq_true_eq,UInt64.le_iff_toNat_le,UInt64.toNat_sub_of_le _ _ past,UInt32.toNat_toUInt64,product]
  by_cases zero : info.timeStamp = 0
  · have later := begun zero
    simp only [zero,ne_eq,not_true_eq_false,false_and,false_iff]
    omega
  · simp only [ne_eq,zero,not_false_eq_true,true_and]
    omega

-- The timer is called, and the callback makes its calls.
theorem called_kept {s t : Timer} {callback : OnTimeCallback} (kept : Kept resting s.timers s.log) (set : (s.timers i).func = some func)
    (passed : (s.timers i).timeStamp.toNat+(s.timers i).timeInterval.toNat*1000000 ≤ stamp.toNat)
    (calls : callback.calls.foldlM Timer.perform {s with log := s.log ++ [.fired i func stamp]} = some t) :
    Kept (Function.update resting i (some stamp)) t.timers t.log ∧
      Extends (·.Within []) {s with log := s.log ++ [.fired i func stamp]} t := by
  have shown := kept.shown i
  obtain ⟨timer,here⟩ : ∃ timer, armed s.log i = some timer := by
    cases here : armed s.log i with
    | none =>
      rw [here] at shown
      rw [shown] at set
      cases set
    | some timer => exact ⟨timer,rfl⟩
  rw [here] at shown
  obtain ⟨func_same,interval,since⟩ := shown
  rw [set] at func_same
  have since : timer.since = (s.timers i).timeStamp.toNat := by
    rw [since]
    split <;> rfl
  have called : Kept (Function.update resting i (some stamp)) s.timers (s.log ++ [.fired i func stamp]) := by
    refine ⟨kept.sound.snoc ⟨timer,here,(Option.some.inj func_same).symm,?_⟩,fun j => ?_⟩
    · unfold Armed.Due
      rw [since,interval]
      exact passed
    · rw [armed_snoc,table,here,Option.map_some]
      by_cases same : j = i
      · subst same
        rw [Function.update_self,Function.update_self]
        exact ⟨set.trans func_same,interval,rfl⟩
      · rw [Function.update_of_ne same,Function.update_of_ne same]
        exact kept.shown j
  refine foldlM_invariant (fun u : Timer => Kept (Function.update resting i (some stamp)) u.timers u.log ∧
    Extends (·.Within []) {s with log := s.log ++ [.fired i func stamp]} u) calls ⟨called,.refl _ _⟩ ?_
  rintro u call v _ ⟨kept,extended⟩ ran
  obtain ⟨kept,further⟩ := perform_kept kept ran
  exact ⟨kept,extended.trans further⟩

-- What the timer with the callback's number is when the callback has returned.
theorem returned_kept {t : Timer} (timer : Option Armed) (kept : Kept (Function.update resting i (some stamp)) t.timers t.log)
    (shown : info.Shown none timer) (sound : Sound log) (table : armed log = Function.update (armed t.log) i timer) :
    Kept resting (Function.update t.timers i info) log := by
  refine ⟨sound,fun j => ?_⟩
  rw [table]
  by_cases same : j = i
  · subst same
    rw [Function.update_self,Function.update_self]
    exact shown
  · have others := kept.shown j
    rw [Function.update_of_ne same] at others
    rw [Function.update_of_ne same,Function.update_of_ne same]
    exact others

theorem fire_kept {s t : Timer} (kept : Kept resting s.timers s.log) (set : (s.timers i).func = some func)
    (passed : (s.timers i).timeStamp.toNat+(s.timers i).timeInterval.toNat*1000000 ≤ stamp.toNat)
    (spares : s.Spares i func stamp callback) (ran : s.fire i func stamp callback = some t) :
    Kept resting t.timers t.log ∧ ∃ more, t.log = s.log ++ .fired i func stamp :: more ∧ ∀ e ∈ more, e.Within [i] := by
  obtain ⟨u,calls,ends⟩ := Option.bind_eq_some_iff.mp ran
  obtain ⟨kept,more,logged,allowed⟩ := called_kept kept set passed calls
  have spared := spares u calls
  dsimp only at logged
  rw [List.append_assoc,List.singleton_append] at logged
  have shown := kept.shown i
  rw [Function.update_self] at shown
  split at ends
  · cases ends
    refine ⟨returned_kept (armed u.log i) kept ?_ kept.sound (Function.update_eq_self _ _).symm,
      more,logged,fun e member => (allowed e member).wider (List.nil_subset _)⟩
    cases here : armed u.log i with
    | none =>
      rw [here] at shown
      exact shown
    | some timer =>
      rw [here] at shown
      obtain ⟨func_same,interval,since⟩ := shown
      refine ⟨func_same,interval,?_⟩
      cases called : timer.called with
      | true =>
        rw [called] at since
        exact since
      | false => exact (spared timer here called).2
  · rename_i refused
    have index : (UInt32.ofNat i.val).toNat = i.val := by
      have small := i.isLt
      simp
      omega
    obtain ⟨j,at_i,rfl⟩ := unRegisterTimer_returned ends
    obtain rfl : j = i := Fin.ext (at_i.trans index)
    have ended : (armed u.log j).filter (fun timer => !timer.called) = none := by
      refine Option.filter_eq_none_iff.mpr fun timer here => ?_
      cases called : timer.called with
      | true => simp
      | false => exact absurd (spared timer here called).1 refused
    refine ⟨returned_kept none kept rfl (kept.sound.snoc trivial) ?_,more ++ [.stopped j],by simp [logged],?_⟩
    · rw [armed_snoc,table,ended]
    · rw [List.forall_mem_append]
      exact ⟨fun e member => (allowed e member).wider (List.nil_subset _),List.forall_mem_singleton.mpr (List.mem_singleton_self j)⟩

theorem visit_returned {s t : Timer} {callbacks : Fin 10 → OnTimeCallback} (ran : s.visit stamp callbacks i = some t) :
    (∃ func, (s.timers i).func = some func ∧ ((s.timers i).timeStamp ≠ 0 ∧ Timer.due (s.timers i) stamp = true) ∧
      s.fire i func stamp (callbacks i) = some t) ∨
    (t = s ∧ ∀ func, (s.timers i).func = some func → ¬ ((s.timers i).timeStamp ≠ 0 ∧ Timer.due (s.timers i) stamp = true)) := by
  unfold Timer.visit at ran
  split at ran
  next unset =>
    cases ran
    refine .inr ⟨rfl,fun func set => ?_⟩
    rw [unset] at set
    cases set
  next func set =>
    split at ran
    next zero =>
      cases ran
      exact .inr ⟨rfl,fun _ _ looked => looked.1 zero⟩
    next begun =>
      split at ran
      next due => exact .inl ⟨func,set,⟨begun,due⟩,ran⟩
      next early =>
        cases ran
        exact .inr ⟨rfl,fun _ _ looked => early looked.2⟩

theorem visit_kept {s t : Timer} {callbacks : Fin 10 → OnTimeCallback} (kept : Kept resting s.timers s.log)
    (meets : s.VisitMeets stamp callbacks i) (ran : s.visit stamp callbacks i = some t) :
    Kept resting t.timers t.log ∧ ∃ added, t.log = s.log ++ added ∧ (∀ e ∈ added, e.Within [i]) ∧
      ∀ timer, armed s.log i = some timer → timer.Due stamp → ∃ func more, added = .fired i func stamp :: more := by
  rcases visit_returned ran with ⟨func,set,looked,ran⟩ | ⟨rfl,early⟩
  · obtain ⟨clear,spares⟩ := meets func set
    obtain ⟨kept,more,logged,allowed⟩ := fire_kept kept set ((due_exact clear).mp looked) (spares looked.1 looked.2) ran
    refine ⟨kept,_,logged,?_,fun _ _ _ => ⟨_,_,rfl⟩⟩
    exact List.forall_mem_cons.mpr ⟨List.mem_singleton_self i,allowed⟩
  · refine ⟨kept,[],by simp,by simp,?_⟩
    intro timer here due
    have shown := kept.shown i
    rw [here] at shown
    obtain ⟨set,interval,since⟩ := shown
    have since : timer.since = (t.timers i).timeStamp.toNat := by
      rw [since]
      split <;> rfl
    refine absurd ((due_exact (meets _ set).1).mpr ?_) (early _ set)
    rw [← since,← interval]
    exact due

theorem visits_kept {s t : Timer} {callbacks : Fin 10 → OnTimeCallback} {slots : List (Fin 10)} (kept : Kept resting s.timers s.log)
    (meets : Timer.RunMeets stamp callbacks slots s) (ran : slots.foldlM (Timer.visit stamp callbacks) s = some t) :
    Kept resting t.timers t.log ∧ Extends (·.Within slots) s t := by
  induction slots generalizing s with
  | nil =>
    cases ran
    exact ⟨kept,.refl _ _⟩
  | cons i rest ih =>
    obtain ⟨u,round,rounds⟩ := Option.bind_eq_some_iff.mp ran
    obtain ⟨kept,added,logged,allowed,_⟩ := visit_kept kept meets.1 round
    obtain ⟨kept,more,logged_too,allowed_too⟩ := ih kept (meets.2 u round) rounds
    have first : Extends (·.Within (i :: rest)) s u :=
      ⟨added,logged,fun e member => (allowed e member).wider (List.cons_subset_cons _ (List.nil_subset _))⟩
    exact ⟨kept,first.trans ⟨more,logged_too,fun e member => (allowed_too e member).wider (List.subset_cons_self _ _)⟩⟩

-- The rounds for the earlier timers leave the timer as it is, or one of their callbacks
-- unregisters it.
theorem visits_serve {s t : Timer} {callbacks : Fin 10 → OnTimeCallback} (kept : Kept resting s.timers s.log)
    (meets : Timer.RunMeets stamp callbacks (List.finRange 10) s)
    (ran : (List.finRange 10).foldlM (Timer.visit stamp callbacks) s = some t) (here : armed s.log i = some timer)
    (due : timer.Due stamp) : ∃ added, t.log = s.log ++ added ∧ Served i stamp added := by
  obtain ⟨before,after,parts⟩ := List.append_of_mem (List.mem_finRange i)
  have below : ∀ j ∈ before, j < i := by
    have sorted := List.pairwise_lt_finRange 10
    rw [parts] at sorted
    exact fun j member => (List.pairwise_append.mp sorted).2.2 j member i (List.mem_cons_self ..)
  rw [parts] at ran meets
  obtain ⟨u,v,rounds,round,rest⟩ := foldlM_split ran
  obtain ⟨kept_u,one,logged_one,within_one⟩ := visits_kept kept meets.start rounds
  obtain ⟨met,later⟩ := meets.rest rounds
  obtain ⟨kept_v,two,logged_two,_,serves⟩ := visit_kept kept_u met round
  obtain ⟨_,three,logged_three,_⟩ := visits_kept kept_v (later v round) rest
  refine ⟨one ++ (two ++ three),by rw [logged_three,logged_two,logged_one]; simp,?_⟩
  have apart_fired : ∀ e ∈ one, ∀ j func now, e = .fired j func now → j < i := by
    rintro e member j func now rfl
    exact below j (within_one _ member)
  cases found : one.find? (·.slot = i) with
  | some entry =>
    obtain ⟨about,earlier,behind,rfl,others⟩ := List.find?_eq_some_iff_append.mp found
    have apart : ∀ e ∈ earlier, e.slot ≠ i := by simpa using others
    have legit := kept_u.sound (s.log ++ earlier) entry behind (by rw [logged_one]; simp)
    have within := within_one entry (by simp)
    refine ⟨earlier,entry,behind ++ (two ++ three),by simp,.inr ?_,?_⟩
    · cases entry with
      | registered j func interval stamp =>
        obtain rfl : j = i := of_decide_eq_true about
        rw [Legit,armed_other _ _ _ apart,here] at legit
        cases legit
      | unregistered j =>
        obtain rfl : j = i := of_decide_eq_true about
        rfl
      | fired j func stamp =>
        obtain rfl : j = i := of_decide_eq_true about
        exact absurd (below j within) (lt_irrefl j)
      | stopped j =>
        obtain rfl : j = i := of_decide_eq_true about
        exact absurd (below j within) (lt_irrefl j)
    · exact fun e member => ⟨apart e member,apart_fired e (List.mem_append_left _ member)⟩
  | none =>
    have apart : ∀ e ∈ one, e.slot ≠ i := by simpa using found
    rw [← armed_other _ _ _ apart,← logged_one] at here
    obtain ⟨func,more,rfl⟩ := serves timer here due
    refine ⟨one,.fired i func stamp,more ++ three,by simp,.inl ⟨func,rfl⟩,?_⟩
    exact fun e member => ⟨apart e member,apart_fired e member⟩

-- A run that goes through the timers meets the condition at each of them.
def TimerEvent.Meets (s : Timer) : TimerEvent → Prop
  | .calls _ => True
  | .run first timeStamp callbacks => 1000*1000 ≤ timeStamp-s.lastTimeStamp.getD first →
    Timer.RunMeets timeStamp callbacks (List.finRange 10) {s with lastTimeStamp := some (s.lastTimeStamp.getD first),clock := timeStamp}

theorem run_kept {s t : Timer} {callbacks : Fin 10 → OnTimeCallback} (kept : Kept resting s.timers s.log)
    (meets : (TimerEvent.run first stamp callbacks).Meets s) (ran : s.run first stamp callbacks = some t) :
    Kept resting t.timers t.log ∧ ((s.lastTimeStamp.getD first).toNat+1000000 ≤ stamp.toNat →
      ∃ added, t.log = s.log ++ added ∧ ∀ i timer, armed s.log i = some timer → timer.Due stamp → Served i stamp added) := by
  simp only [Timer.run] at ran
  simp only [TimerEvent.Meets] at meets
  generalize s.lastTimeStamp.getD first = last at ran meets
  split at ran
  · rename_i within
    cases ran
    refine ⟨kept,fun passed => ?_⟩
    have still := UInt64.lt_iff_toNat_lt.mp within
    rw [UInt64.toNat_sub_of_le _ _ (by rw [UInt64.le_iff_toNat_le]; omega)] at still
    simp at still
    omega
  · rename_i passed
    have meets := meets (UInt64.not_lt.mp passed)
    obtain ⟨kept_too,added,logged,_⟩ := visits_kept (s := {s with lastTimeStamp := some last, clock := stamp}) kept meets ran
    refine ⟨kept_too,fun _ => ⟨added,logged,?_⟩⟩
    intro i timer here due
    obtain ⟨_,logged_too,served⟩ := visits_serve (s := {s with lastTimeStamp := some last, clock := stamp}) kept meets ran here due
    obtain rfl := List.append_cancel_left (logged.symm.trans logged_too)
    exact served

theorem event_kept {s t : Timer} (kept : Kept resting s.timers s.log) (step : TimerStep s event t) (meets : event.Meets s) :
    Kept resting t.timers t.log ∧ ServesDue s event t := by
  obtain ⟨_,ran⟩ := step
  cases event with
  | calls call => exact ⟨(perform_kept kept ran).1,by rintro first stamp callbacks same; cases same⟩
  | run first stamp callbacks =>
    obtain ⟨kept,serves⟩ := run_kept kept meets ran
    refine ⟨kept,?_⟩
    intro first stamp callbacks same passed
    cases same
    exact serves passed

-- In every run of calls that meet the condition no timer is early, and each run after
-- the first second serves those that are due.
theorem timers_on_time (path : Path TimerStep (Timer.new clock) taken last) (met : ∀ t ∈ taken, t.event.Meets t.before) :
    NeverEarly last.log ∧ ∀ t ∈ taken, ServesDue t.before t.event t.after := by
  have restricted := path.restrict (fun s event => event.Meets s) met
  have start := new_kept clock
  constructor
  · have kept := restricted.invariant (fun s => Kept resting s.timers s.log) start
      fun _ _ _ kept step => (event_kept kept step.1 step.2).1
    exact kept.sound.never_early
  · exact restricted.along (fun s => Kept resting s.timers s.log) ServesDue start
      (fun _ _ _ kept step => (event_kept kept step.1 step.2).1)
      (fun _ _ _ kept step => (event_kept kept step.1 step.2).2)

def idle : Fin 10 → OnTimeCallback := fun _ => ⟨[],true⟩

theorem timers_on_time_minute : ∃ taken last, Path TimerStep (Timer.new 5) taken last ∧ NeverEarly last.log ∧
    last.log = [.registered 9 7 60 1000000,.fired 9 7 61000000] := by
  have path : Path TimerStep (Timer.new 5)
      [⟨_,.calls (.registerTimer (some 7) 60 1000000),_⟩,⟨_,.run 1000000 1000000 idle,_⟩,⟨_,.run 0 61000000 idle,_⟩] _ :=
    .step (.step (.step .nil ⟨(by decide : (5 : UInt64) ≤ 1000000),rfl⟩)
      ⟨⟨(by decide),fun _ => by decide,fun _ _ inside => nomatch inside⟩,rfl⟩)
      ⟨⟨(by decide),fun unset => (nomatch unset),fun _ _ inside => nomatch inside⟩,rfl⟩
  exact ⟨_,_,path,(timers_on_time path (by
    intro t member
    simp only [List.mem_cons,List.not_mem_nil,or_false] at member
    obtain rfl | rfl | rfl := member
    · trivial
    · exact fun passed => absurd passed (by decide)
    · exact fun _ => by decide +kernel)).1,rfl⟩

-- 4295 seconds are 32704 microseconds more than what 32 bits hold.
theorem interval_wraps : ¬ ∀ clock taken last, Path TimerStep (Timer.new clock) taken last →
    NeverEarly last.log ∧ ∀ t ∈ taken, ServesDue t.before t.event t.after := by
  intro on_time
  have path : Path TimerStep (Timer.new 5)
      [⟨_,.calls (.registerTimer (some 7) 4295 1000000),_⟩,⟨_,.run 1000000 1000000 idle,_⟩,⟨_,.run 0 2000000 idle,_⟩] _ :=
    .step (.step (.step .nil ⟨(by decide : (5 : UInt64) ≤ 1000000),rfl⟩)
      ⟨⟨(by decide),fun _ => by decide,fun _ _ inside => nomatch inside⟩,rfl⟩)
      ⟨⟨(by decide),fun unset => (nomatch unset),fun _ _ inside => nomatch inside⟩,rfl⟩
  obtain ⟨timer,here,_,due⟩ := (on_time _ _ _ path).1 [.registered 9 7 4295 1000000] 9 7 2000000 [] rfl
  cases here
  exact absurd due (by simp [Armed.Due])

end PcNetwork.Libbase
