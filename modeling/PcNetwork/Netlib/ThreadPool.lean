import PcNetwork.Library.CriticalSection
import PcNetwork.Library.Path
import Mathlib.Logic.Function.Basic
import Mathlib.Data.String.Basic

namespace PcNetwork.Netlib

def threadPoolCmdNull : UInt16 := 0
def threadPoolCmdShutdown : UInt16 := 1

structure ThreadParamData where
  name : String
  ptrArg : Nat
  command : UInt16
  lockCmd : CriticalSection
  lockRun : CriticalSection
  inPool : Bool
  deleted : Bool

-- Where a caller is: outside, with the name that its last RunThread returned, or in
-- front of the next lock operation of the function it has called. Nothing is known of one
-- that has done what is not defined.
inductive Point where
  | outside (returned : Option String)
  | undefined
  | runLock (name : String) (arg : Nat)
  | runUnlock (t : Nat)
  | runCmd (t arg : Nat)
  | runCmdUnlock (t arg : Nat)
  | runRun (t arg : Nat)
  | runRunUnlock (t : Nat)
  | closeLock (name : Option String) (wait : Bool)
  | closeMiss
  | closeFound (name : String) (wait : Bool) (t : Nat)
  | closeCmd (name : String) (wait : Bool) (t : Nat)
  | closeCmdUnlock (name : String) (wait : Bool) (t : Nat)
  | closeRun (name : String) (t : Nat)
  | closeRunUnlock (name : String) (t : Nat)
  | closeAgain (name : String) (t : Nat)
  | closeErased (t : Nat)
  | cleanLock
  | cleanCmd (t : Nat) (rest : List Nat)
  | cleanCmdUnlock (t : Nat) (rest : List Nat)
  | cleanUnlock (t : Nat)
  | cleanRun (t : Nat)
  | cleanRunUnlock (t : Nat)
  | cleanRelock
  | cleanLast

structure ThreadPool where
  mapThreads : List (String × Nat)
  lockPool : CriticalSection
  uniqueNum : UInt32
  threads : Nat → ThreadParamData
  created : Nat
  callers : Nat → Point

inductive PoolCall where
  | runThread (name : Option String) (arg : Nat)
  | closeThread (name : Option String) (wait : Bool)
  | cleanup

namespace ThreadPool

def new : ThreadPool := ⟨[],.new,0,fun _ => ⟨"",0,0,.new,.new,false,false⟩,0,fun _ => .outside none⟩

def goes (s : ThreadPool) (c : Nat) (point : Point) : ThreadPool := {s with callers := Function.update s.callers c point}

def modify (s : ThreadPool) (t : Nat) (f : ThreadParamData → ThreadParamData) : ThreadPool :=
  {s with threads := Function.update s.threads t (f (s.threads t))}

def find (s : ThreadPool) (name : String) : Option Nat := s.mapThreads.lookup name

-- The map is ordered by the names.
def insertInto (name : String) (t : Nat) : List (String × Nat) → List (String × Nat)
  | [] => [(name,t)]
  | entry :: rest => if name < entry.1 then (name,t) :: entry :: rest else entry :: insertInto name t rest

def insert (s : ThreadPool) (name : String) (arg : Nat) : ThreadPool :=
  {s with
    mapThreads := insertInto name s.created s.mapThreads,
    threads := Function.update s.threads s.created ⟨name,arg,threadPoolCmdNull,.new,.new,true,false⟩,
    created := s.created+1}

-- A name that is NULL is replaced before the lock is taken.
def call (s : ThreadPool) (c : Nat) : PoolCall → ThreadPool
  | .runThread none arg => {s with uniqueNum := s.uniqueNum+1}.goes c (.runLock ("thread_" ++ toString s.uniqueNum.toInt32.toInt) arg)
  | .runThread (some name) arg => s.goes c (.runLock name arg)
  | .closeThread name wait => s.goes c (.closeLock name wait)
  | .cleanup => s.goes c .cleanLock

def lock (s : ThreadPool) (c : Nat) : Option ThreadPool := (s.lockPool.enter c).map fun cs => {s with lockPool := cs}
def unlock (s : ThreadPool) (c : Nat) : Option ThreadPool := (s.lockPool.leave c).map fun cs => {s with lockPool := cs}

def lockCmd (s : ThreadPool) (c t : Nat) : Option ThreadPool :=
  ((s.threads t).lockCmd.enter c).map fun cs => s.modify t fun d => {d with lockCmd := cs}

def unlockCmd (s : ThreadPool) (c t : Nat) : Option ThreadPool :=
  ((s.threads t).lockCmd.leave c).map fun cs => s.modify t fun d => {d with lockCmd := cs}

def lockRuning (s : ThreadPool) (c t : Nat) : Option ThreadPool :=
  ((s.threads t).lockRun.enter c).map fun cs => s.modify t fun d => {d with lockRun := cs}

def unlockRuning (s : ThreadPool) (c t : Nat) : Option ThreadPool :=
  ((s.threads t).lockRun.leave c).map fun cs => s.modify t fun d => {d with lockRun := cs}

-- The second loop of Cleanup erases the first entry while it has the lock.
def cleanNext (s : ThreadPool) (c : Nat) : ThreadPool :=
  match s.mapThreads with
  | [] => s.goes c .cleanLast
  | (_,t) :: rest => {s with mapThreads := rest}.goes c (.cleanUnlock t)

-- The first loop of Cleanup goes through the entries.
def cleanThrough (s : ThreadPool) (c : Nat) : List Nat → ThreadPool
  | [] => s.cleanNext c
  | t :: rest => s.goes c (.cleanCmd t rest)

-- The data of a thread that a caller uses next. The name that CloseThread looks up again
-- may lie in them.
def uses : Point → Option Nat
  | .runUnlock t | .runCmd t _ | .runCmdUnlock t _ | .runRun t _ | .runRunUnlock t => some t
  | .closeCmd _ _ t | .closeCmdUnlock _ _ t | .closeRun _ t | .closeRunUnlock _ t | .closeAgain _ t | .closeErased t => some t
  | .cleanCmd t _ | .cleanCmdUnlock t _ | .cleanRun t | .cleanRunUnlock t => some t
  | _ => none

-- One lock operation and what follows it up to the next one. With the lock, CloseThread
-- makes a string of a name that may be NULL, and erases an entry that may have gone in the
-- meantime.
def pass (s : ThreadPool) (c : Nat) : Option ThreadPool :=
  match s.callers c with
  | .outside _ | .undefined => none
  | .runLock name arg => (s.lock c).map fun s =>
    match s.find name with
    | none => (s.insert name arg).goes c (.runUnlock s.created)
    | some t => s.goes c (.runCmd t arg)
  | .runUnlock t => (s.unlock c).map fun s => s.goes c (.outside (some (s.threads t).name))
  | .runCmd t arg => (s.lockCmd c t).map fun s =>
    (s.modify t fun d => {d with command := threadPoolCmdShutdown}).goes c (.runCmdUnlock t arg)
  | .runCmdUnlock t arg => (s.unlockCmd c t).map fun s => s.goes c (.runRun t arg)
  | .runRun t arg => (s.lockRuning c t).map fun s =>
    (s.modify t fun d => {d with command := threadPoolCmdNull, ptrArg := arg}).goes c (.runRunUnlock t)
  | .runRunUnlock t => (s.unlockRuning c t).map fun s => s.goes c (.outside (some (s.threads t).name))
  | .closeLock none _ => (s.lock c).map fun s => s.goes c .undefined
  | .closeLock (some name) wait => (s.lock c).map fun s =>
    match s.find name with
    | none => s.goes c .closeMiss
    | some t => s.goes c (.closeFound name wait t)
  | .closeMiss => (s.unlock c).map fun s => s.goes c (.outside none)
  | .closeFound name wait t => (s.unlock c).map fun s => s.goes c (.closeCmd name wait t)
  | .closeCmd name wait t => (s.lockCmd c t).map fun s =>
    (s.modify t fun d => {d with command := threadPoolCmdShutdown}).goes c (.closeCmdUnlock name wait t)
  | .closeCmdUnlock name wait t => (s.unlockCmd c t).map fun s =>
    s.goes c (if wait then .closeRun name t else .closeAgain name t)
  | .closeRun name t => (s.lockRuning c t).map fun s => s.goes c (.closeRunUnlock name t)
  | .closeRunUnlock name t => (s.unlockRuning c t).map fun s => s.goes c (.closeAgain name t)
  | .closeAgain name t => (s.lock c).map fun s =>
    if (s.find name).isSome then {s with mapThreads := s.mapThreads.filter fun entry => entry.1 ≠ name}.goes c (.closeErased t)
    else s.goes c .undefined
  | .closeErased t => (s.unlock c).map fun s => (s.modify t fun d => {d with inPool := false}).goes c (.outside none)
  | .cleanLock => (s.lock c).map fun s => s.cleanThrough c (s.mapThreads.map Prod.snd)
  | .cleanCmd t rest => (s.lockCmd c t).map fun s =>
    (s.modify t fun d => {d with command := threadPoolCmdShutdown}).goes c (.cleanCmdUnlock t rest)
  | .cleanCmdUnlock t rest => (s.unlockCmd c t).map fun s => s.cleanThrough c rest
  | .cleanUnlock t => (s.unlock c).map fun s => s.goes c (.cleanRun t)
  | .cleanRun t => (s.lockRuning c t).map fun s => s.goes c (.cleanRunUnlock t)
  | .cleanRunUnlock t => (s.unlockRuning c t).map fun s => (s.modify t fun d => {d with inPool := false}).goes c .cleanRelock
  | .cleanRelock => (s.lock c).map fun s => s.cleanNext c
  | .cleanLast => (s.unlock c).map fun s => {s with uniqueNum := 0}.goes c (.outside none)

-- The data of a thread may have been deleted by then.
def advance (s : ThreadPool) (c : Nat) : Option ThreadPool :=
  if ∃ t ∈ uses (s.callers c), (s.threads t).deleted = true then some (s.goes c .undefined) else s.pass c

inductive ThreadLock where
  | lockCmd
  | unlockCmd
  | lockRuning
  | unlockRuning

def operate (s : ThreadPool) (c t : Nat) : ThreadLock → Option ThreadPool
  | .lockCmd => s.lockCmd c t
  | .unlockCmd => s.unlockCmd c t
  | .lockRuning => s.lockRuning c t
  | .unlockRuning => s.unlockRuning c t

end ThreadPool

inductive PoolEvent where
  | calls (c : Nat) (call : PoolCall)
  | advances (c : Nat)
  | operates (c t : Nat) (lock : ThreadPool.ThreadLock)
  | deletes (c t : Nat)

-- Any number of callers. The threads of the pool take the locks of their data as they
-- like, are callers as well when they close themselves, and delete their data.
inductive PoolStep : ThreadPool → PoolEvent → ThreadPool → Prop where
  | calls (outside : s.callers c = .outside returned) : PoolStep s (.calls c call) (s.call c call)
  | advances (ran : s.advance c = some t) : PoolStep s (.advances c) t
  | operates (outside : s.callers c = .outside returned) (ran : s.operate c d lock = some t) : PoolStep s (.operates c d lock) t
  | deletes (outside : s.callers c = .outside returned) : PoolStep s (.deletes c d) (s.modify d fun data => {data with deleted := true})

-- Nobody outside has the lock, so whoever waits for it waits for a caller inside, of whom
-- it is known what he does.
structure Released (s : ThreadPool) : Prop where
  defined : ∀ c, s.callers c ≠ .undefined
  free : ∀ c returned n, s.callers c = .outside returned → s.lockPool.owner ≠ some (c,n)
  inside : ∀ c, s.lock c = none → ∃ d, d ≠ c ∧ ∀ returned, s.callers d ≠ .outside returned

-- RunThread finds no thread of its name. CloseThread has a name, and finds it again when it
-- has waited. No data of a thread is used that has been deleted.
structure Regular (s : ThreadPool) (c : Nat) : Prop where
  none_found : ∀ name arg, s.callers c = .runLock name arg → s.find name = none
  found_again : ∀ name t, s.callers c = .closeAgain name t → (s.find name).isSome
  there : ∀ t ∈ ThreadPool.uses (s.callers c), (s.threads t).deleted = false

def Meets (s : ThreadPool) : PoolEvent → Prop
  | .advances c => Regular s c
  | .calls _ (.closeThread name _) => name ≠ none
  | _ => True

namespace Point

-- The points at which the code counts on having the lock of the pool.
def Holds : Point → Prop
  | .runUnlock _ | .closeMiss | .closeFound .. | .closeErased _ | .cleanCmd .. | .cleanCmdUnlock .. | .cleanUnlock _ | .cleanLast => True
  | _ => False

-- The points on the way of RunThread with a thread that it has found, and those that are
-- not defined or lead there.
def Known : Point → Prop
  | .runCmd .. | .runCmdUnlock .. | .runRun .. | .runRunUnlock _ => True
  | .undefined | .closeLock none _ => True
  | _ => False

end Point

namespace ThreadPool
variable {s t u : ThreadPool} {c : Nat} {p : Point}

-- What a step of a caller does with the lock of the pool.
inductive Moves (s : ThreadPool) (c : Nat) (t : ThreadPool) : Prop where
  | enters (before : ¬ (s.callers c).Holds) (ran : s.lockPool.enter c = some t.lockPool) (after : (t.callers c).Holds)
  | leaves (ran : s.lockPool.leave c = some t.lockPool) (after : ¬ (t.callers c).Holds)
  | stays (same : t.lockPool = s.lockPool) (holds : (t.callers c).Holds ↔ (s.callers c).Holds)

structure MovesTo (s : ThreadPool) (c : Nat) (t : ThreadPool) : Prop where
  moves : Moves s c t
  unknown : ¬ (t.callers c).Known
  others : ∀ d, d ≠ c → t.callers d = s.callers d

theorem lock_some (ran : s.lock c = some t) : ∃ cs, s.lockPool.enter c = some cs ∧ t = {s with lockPool := cs} := by
  obtain ⟨cs,entered,rfl⟩ := Option.map_eq_some_iff.mp ran
  exact ⟨cs,entered,rfl⟩

theorem unlock_some (ran : s.unlock c = some t) : ∃ cs, s.lockPool.leave c = some cs ∧ t = {s with lockPool := cs} := by
  obtain ⟨cs,left,rfl⟩ := Option.map_eq_some_iff.mp ran
  exact ⟨cs,left,rfl⟩

-- The locks of the threads are not the one of the pool.
theorem operate_some {d : Nat} {lock : ThreadLock} (ran : s.operate c d lock = some t) :
    t.lockPool = s.lockPool ∧ t.callers = s.callers := by
  cases lock <;>
  · obtain ⟨_,_,rfl⟩ := Option.map_eq_some_iff.mp ran
    exact ⟨rfl,rfl⟩

theorem entering (ran : s.lock c = some u) (outside : ¬ (s.callers c).Holds) (same : t.lockPool = u.lockPool)
    (goes : t.callers = Function.update u.callers c p) (holds : p.Holds) (unknown : ¬ p.Known) : MovesTo s c t := by
  obtain ⟨cs,entered,rfl⟩ := lock_some ran
  dsimp only at same goes
  have here : t.callers c = p := by rw [goes,Function.update_self]
  refine ⟨.enters outside (same ▸ entered) (here ▸ holds),here ▸ unknown,?_⟩
  intro d apart
  rw [goes,Function.update_of_ne apart]

theorem leaving (ran : s.unlock c = some u) (same : t.lockPool = u.lockPool)
    (goes : t.callers = Function.update u.callers c p) (holds : ¬ p.Holds) (unknown : ¬ p.Known) : MovesTo s c t := by
  obtain ⟨cs,left,rfl⟩ := unlock_some ran
  dsimp only at same goes
  have here : t.callers c = p := by rw [goes,Function.update_self]
  refine ⟨.leaves (same ▸ left) (here ▸ holds),here ▸ unknown,?_⟩
  intro d apart
  rw [goes,Function.update_of_ne apart]

theorem staying (lock : ThreadLock) (ran : s.operate c d lock = some u) (same : t.lockPool = u.lockPool)
    (goes : t.callers = Function.update u.callers c p) (holds : p.Holds ↔ (s.callers c).Holds) (unknown : ¬ p.Known) : MovesTo s c t := by
  obtain ⟨kept,callers⟩ := operate_some ran
  have here : t.callers c = p := by rw [goes,Function.update_self]
  refine ⟨.stays (same.trans kept) (here ▸ holds),here ▸ unknown,?_⟩
  intro d apart
  rw [goes,Function.update_of_ne apart,callers]

-- Cleanup goes on with the lock, to an entry or to its end.
theorem cleanNext_goes (s : ThreadPool) (c : Nat) : (s.cleanNext c).lockPool = s.lockPool ∧
    ∃ p, (s.cleanNext c).callers = Function.update s.callers c p ∧ p.Holds ∧ ¬ p.Known := by
  unfold cleanNext
  split
  · exact ⟨rfl,_,rfl,trivial,id⟩
  · exact ⟨rfl,_,rfl,trivial,id⟩

theorem cleanThrough_goes (s : ThreadPool) (c : Nat) (rest : List Nat) : (s.cleanThrough c rest).lockPool = s.lockPool ∧
    ∃ p, (s.cleanThrough c rest).callers = Function.update s.callers c p ∧ p.Holds ∧ ¬ p.Known := by
  cases rest with
  | nil => exact s.cleanNext_goes c
  | cons t rest => exact ⟨rfl,_,rfl,trivial,id⟩

theorem pass_moves (ran : s.pass c = some t) (unknown : ¬ (s.callers c).Known) (regular : Regular s c) : MovesTo s c t := by
  unfold pass at ran
  cases at_point : s.callers c <;> simp only [at_point] at ran unknown
  case outside | undefined => cases ran
  case runLock name arg =>
    obtain ⟨u,locked,rfl⟩ := Option.map_eq_some_iff.mp ran
    have missing : u.find name = none := by
      obtain ⟨_,_,rfl⟩ := lock_some locked
      exact regular.none_found name arg at_point
    simp only [missing]
    exact entering locked (by simp [at_point,Point.Holds]) rfl rfl trivial id
  case runUnlock =>
    obtain ⟨u,left,rfl⟩ := Option.map_eq_some_iff.mp ran
    exact leaving left rfl rfl id id
  case runCmd | runCmdUnlock | runRun | runRunUnlock => exact absurd trivial unknown
  case closeLock name wait =>
    cases name with
    | none => exact absurd trivial unknown
    | some name =>
    obtain ⟨u,locked,rfl⟩ := Option.map_eq_some_iff.mp ran
    split
    · exact entering locked (by simp [at_point,Point.Holds]) rfl rfl trivial id
    · exact entering locked (by simp [at_point,Point.Holds]) rfl rfl trivial id
  case closeMiss | closeFound | closeErased | cleanUnlock | cleanLast =>
    obtain ⟨u,left,rfl⟩ := Option.map_eq_some_iff.mp ran
    exact leaving left rfl rfl id id
  case closeAgain name t =>
    obtain ⟨u,locked,rfl⟩ := Option.map_eq_some_iff.mp ran
    have found : (u.find name).isSome := by
      obtain ⟨_,_,rfl⟩ := lock_some locked
      exact regular.found_again name t at_point
    rw [if_pos found]
    exact entering locked (by simp [at_point,Point.Holds]) rfl rfl trivial id
  case closeCmd =>
    obtain ⟨u,locked,rfl⟩ := Option.map_eq_some_iff.mp ran
    exact staying .lockCmd locked rfl rfl (by simp [at_point,Point.Holds]) id
  case closeCmdUnlock name wait t =>
    obtain ⟨u,left,rfl⟩ := Option.map_eq_some_iff.mp ran
    refine staying .unlockCmd left rfl rfl ?_ ?_
    · cases wait <;> simp [at_point,Point.Holds]
    · cases wait <;> exact id
  case closeRun | cleanRun =>
    obtain ⟨u,locked,rfl⟩ := Option.map_eq_some_iff.mp ran
    exact staying .lockRuning locked rfl rfl (by simp [at_point,Point.Holds]) id
  case closeRunUnlock | cleanRunUnlock =>
    obtain ⟨u,left,rfl⟩ := Option.map_eq_some_iff.mp ran
    exact staying .unlockRuning left rfl rfl (by simp [at_point,Point.Holds]) id
  case cleanLock =>
    obtain ⟨u,locked,rfl⟩ := Option.map_eq_some_iff.mp ran
    obtain ⟨same,p,goes,holds,unknown⟩ := u.cleanThrough_goes c (u.mapThreads.map Prod.snd)
    exact entering locked (by simp [at_point,Point.Holds]) same goes holds unknown
  case cleanCmd =>
    obtain ⟨u,locked,rfl⟩ := Option.map_eq_some_iff.mp ran
    exact staying .lockCmd locked rfl rfl (by simp [at_point,Point.Holds]) id
  case cleanCmdUnlock t rest =>
    obtain ⟨u,left,rfl⟩ := Option.map_eq_some_iff.mp ran
    obtain ⟨same,p,goes,holds,unknown⟩ := u.cleanThrough_goes c rest
    exact staying .unlockCmd left same goes (iff_of_true holds (by rw [at_point]; trivial)) unknown
  case cleanRelock =>
    obtain ⟨u,locked,rfl⟩ := Option.map_eq_some_iff.mp ran
    obtain ⟨same,p,goes,holds,unknown⟩ := u.cleanNext_goes c
    exact entering locked (by simp [at_point,Point.Holds]) same goes holds unknown

theorem advance_moves (ran : s.advance c = some t) (unknown : ¬ (s.callers c).Known) (regular : Regular s c) : MovesTo s c t := by
  have there : ¬ ∃ d ∈ uses (s.callers c), (s.threads d).deleted = true := by
    rintro ⟨d,used,gone⟩
    exact absurd (regular.there d used) (by simp [gone])
  rw [advance,if_neg there] at ran
  exact pass_moves ran unknown regular

structure Kept (s : ThreadPool) : Prop where
  held : s.lockPool.Held fun c => (s.callers c).Holds
  unknown : ∀ c, ¬ (s.callers c).Known

theorem new_kept : Kept new := ⟨CriticalSection.new_held fun _ => id,fun _ => id⟩

theorem MovesTo.kept (moves : MovesTo s c t) (kept : Kept s) : Kept t := by
  have others : ∀ d, d ≠ c → ((t.callers d).Holds ↔ (s.callers d).Holds) := fun d apart => by rw [moves.others d apart]
  constructor
  · cases moves.moves with
    | enters before ran after => exact kept.held.entered before ran others after
    | leaves ran after => exact kept.held.left ran others after
    | stays same holds =>
      rw [same]
      refine kept.held.congr fun d => ?_
      by_cases equal : d = c
      · rw [equal]
        exact holds
      · exact others d equal
  · intro d
    by_cases equal : d = c
    · rw [equal]
      exact moves.unknown
    · rw [moves.others d equal]
      exact kept.unknown d

theorem call_moves (outside : s.callers c = .outside returned) (call : PoolCall) (meets : Meets s (.calls c call)) :
    MovesTo s c (s.call c call) := by
  have begins : ∀ (s' : ThreadPool) (p : Point), s'.lockPool = s.lockPool → s'.callers = s.callers → ¬ p.Holds → ¬ p.Known →
      MovesTo s c (s'.goes c p) := by
    intro s' p same callers holds unknown
    have here : (s'.goes c p).callers c = p := Function.update_self ..
    refine ⟨.stays same ?_,by rw [here]; exact unknown,?_⟩
    · rw [here,outside]
      exact iff_of_false holds id
    · intro d apart
      rw [← callers]
      exact Function.update_of_ne apart ..
  cases call with
  | runThread name arg => cases name <;> exact begins _ _ rfl rfl id id
  | closeThread name wait =>
    cases name with
    | none => exact absurd rfl meets
    | some name => exact begins _ _ rfl rfl id id
  | cleanup => exact begins _ _ rfl rfl id id

theorem step_kept {event : PoolEvent} (kept : Kept s) (step : PoolStep s event t) (meets : Meets s event) : Kept t := by
  cases step with
  | calls outside => exact (call_moves outside _ meets).kept kept
  | advances ran => exact (advance_moves ran (kept.unknown _) meets).kept kept
  | operates _ ran =>
    obtain ⟨same,callers⟩ := operate_some ran
    constructor
    · rw [same,callers]
      exact kept.held
    · rw [callers]
      exact kept.unknown
  | deletes => exact ⟨kept.held,kept.unknown⟩

theorem Kept.released (kept : Kept s) : Released s := by
  refine ⟨?_,?_,?_⟩
  · intro c undefined
    exact kept.unknown c (undefined ▸ trivial)
  · intro c returned n outside owner
    have holds := (kept.held.holds c).mpr ⟨n,owner⟩
    rw [outside] at holds
    exact holds
  · intro c waits
    have waits : s.lockPool.enter c = none := Option.map_eq_none_iff.mp waits
    cases owner : s.lockPool.owner with
    | none => simp [CriticalSection.enter,owner] at waits
    | some entry =>
      obtain ⟨d,n⟩ := entry
      refine ⟨d,?_,?_⟩
      · rintro rfl
        simp [CriticalSection.enter,owner] at waits
      · intro returned outside
        have holds := (kept.held.holds d).mpr ⟨n,owner⟩
        simp only [outside] at holds
        exact holds

end ThreadPool

end PcNetwork.Netlib
