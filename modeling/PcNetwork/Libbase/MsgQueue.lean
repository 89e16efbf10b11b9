import PcNetwork.Library.Fifo

namespace PcNetwork.Libbase
variable {τ : Type}

structure Semaphore where
  count : Nat
  maximum : Nat

-- A semaphore with no place is not created, and its handle is NULL.
def createSemaphore (maximum : Int32) : Option Semaphore :=
  if 0 < maximum.toInt then some ⟨0,maximum.toInt.toNat⟩ else none

-- The count before, or FALSE for a handle that is NULL and a semaphore that is full.
def releaseSemaphore : Option Semaphore → Option (Nat × Semaphore)
  | none => none
  | some s => if s.count+1 ≤ s.maximum then some (s.count,{s with count := s.count+1}) else none

-- The block of elements with the indices at which it was written to.
structure MsgQueue (τ : Type) where
  semaphore : Option Semaphore
  maxSize : Nat
  queue : Nat → τ
  written : List Nat

inductive Outcome (τ : Type) where
  | appended (data : τ)
  | removed (data : τ)
  | thrown (text : String)

namespace MsgQueue

-- The size goes to the semaphore as a long.
def new (maxSize : Nat) (memory : Nat → τ) : MsgQueue τ := ⟨createSemaphore (Int32.ofNat maxSize),maxSize,memory,[]⟩

-- What append does under the mutex.
def append (q : MsgQueue τ) (data : τ) : Outcome τ × MsgQueue τ :=
  match releaseSemaphore q.semaphore with
  | none => (.thrown "append to queue error, the queue is full",q)
  | some (prevCount,semaphore) => (.appended data,{q with
      semaphore := some semaphore,
      queue := fun i => if i = prevCount then data else q.queue i,
      written := q.written ++ [prevCount]})

-- What remove does once it has the mutex and a count of the semaphore. While there is
-- none to have it waits; with a handle that is NULL the wait fails at once.
def remove (q : MsgQueue τ) : Option (Outcome τ × MsgQueue τ) :=
  match q.semaphore with
  | none => some (.thrown "remove from queue timeout",q)
  | some s =>
    if s.count = 0 then none
    else some (.removed (q.queue 0),{q with
      semaphore := some {s with count := s.count-1},
      queue := fun i => if i < q.maxSize-1 then q.queue (i+1) else q.queue i,
      written := q.written ++ List.range (q.maxSize-1)})

def count (q : MsgQueue τ) : Nat :=
  match q.semaphore with
  | none => 0
  | some s => s.count

end MsgQueue

def infinite : UInt32 := 0xFFFFFFFF

inductive Request (τ : Type) where
  | append (data : τ) (timeout : UInt32)
  | remove (timeout : UInt32)

namespace Request

def enter (q : MsgQueue τ) : Request τ → Option (Outcome τ × MsgQueue τ)
  | .append data _ => some (q.append data)
  | .remove _ => q.remove

def timeout : Request τ → UInt32
  | .append _ timeout => timeout
  | .remove timeout => timeout

def timesOut : Request τ → String
  | .append _ _ => "append to queue timeout."
  | .remove _ => "remove from queue timeout"

end Request

-- Any number of threads, each of them outside the queue or waiting in one of its calls.
structure Threads (τ : Type) where
  queue : MsgQueue τ
  waiting : Nat → Option (Request τ)

def Threads.new (maxSize : Nat) (memory : Nat → τ) : Threads τ := ⟨.new maxSize memory,fun _ => none⟩

def Threads.put (s : Threads τ) (i : Nat) (request : Option (Request τ)) : Nat → Option (Request τ) :=
  fun j => if j = i then request else s.waiting j

inductive QueueEvent (τ : Type) where
  | calls (i : Nat) (request : Request τ)
  | ends (i : Nat) (outcome : Outcome τ)

-- What is done under the mutex is one step. A wait may time out before it, unless it is
-- for ever.
inductive QueueStep : Threads τ → QueueEvent τ → Threads τ → Prop where
  | calls (outside : s.waiting i = none) : QueueStep s (.calls i request) {s with waiting := s.put i (some request)}
  | enters (waits : s.waiting i = some request) (enters : request.enter s.queue = some (outcome,queue)) :
      QueueStep s (.ends i outcome) ⟨queue,s.put i none⟩
  | timesOut (waits : s.waiting i = some request) (finite : request.timeout ≠ infinite) :
      QueueStep s (.ends i (.thrown request.timesOut)) {s with waiting := s.put i none}

def appended : QueueEvent τ → List τ
  | .ends _ (.appended data) => [data]
  | _ => []

def removed : QueueEvent τ → List τ
  | .ends _ (.removed data) => [data]
  | _ => []

-- The stored elements are at the front of the block, and the semaphore counts them.
structure Stores (q : MsgQueue τ) (stored : List τ) : Prop where
  count : q.count = stored.length
  front : (List.range stored.length).map q.queue = stored
  limit : ∀ s, q.semaphore = some s → s.count ≤ s.maximum ∧ s.maximum ≤ q.maxSize
  written : ∀ i ∈ q.written, i < q.maxSize

variable {q next : MsgQueue τ} {stored : List τ}

theorem Stores.bounded (stores : Stores q stored) : stored.length ≤ q.maxSize := by
  rw [← stores.count,MsgQueue.count]
  cases handle : q.semaphore with
  | none => exact Nat.zero_le _
  | some s => exact Nat.le_trans (stores.limit s handle).1 (stores.limit s handle).2

namespace MsgQueue

-- The conversion to long does not make the size larger.
theorem long_le (n : Nat) : (Int32.ofNat n).toInt ≤ n := by
  have remainder : (n : Int) % (Int32.size : Nat) ≤ n := by
    rw [← Int.natCast_emod]
    exact Int.ofNat_le.mpr (Nat.mod_le _ _)
  rw [Int32.toInt_ofNat',Int.bmod_def]
  split
  · exact remainder
  · exact Int.le_trans (Int.sub_le_self _ (Int.natCast_nonneg _)) remainder

theorem new_stores (maxSize : Nat) (memory : Nat → τ) : Stores (new maxSize memory) [] := by
  have small := long_le maxSize
  refine ⟨?_,rfl,?_,List.forall_mem_nil _⟩
  · rw [new,count]
    dsimp only
    unfold createSemaphore
    split
    · rfl
    · rename_i created
      split at created
      · cases created
        rfl
      · cases created
  · intro s created
    replace created : createSemaphore (Int32.ofNat maxSize) = some s := created
    unfold createSemaphore at created
    split at created
    · cases created
      refine ⟨Nat.zero_le _,?_⟩
      show (Int32.ofNat maxSize).toInt.toNat ≤ maxSize
      omega
    · cases created

theorem append_stores (stores : Stores q stored) (data : τ) :
    ((q.append data).1 = .appended data ∧ stored.length < q.maxSize ∧ Stores (q.append data).2 (stored ++ [data]) ∧
      (q.append data).2.maxSize = q.maxSize) ∨
    ((∃ text, (q.append data).1 = .thrown text) ∧ (q.append data).2 = q) := by
  obtain ⟨counted,front,limit,written⟩ := stores
  unfold append
  cases handle : q.semaphore with
  | none => exact .inr ⟨⟨_,rfl⟩,rfl⟩
  | some s =>
    obtain ⟨-,most⟩ := limit s handle
    rw [count,handle] at counted
    replace counted : s.count = stored.length := counted
    unfold releaseSemaphore
    dsimp only
    by_cases room : s.count+1 ≤ s.maximum
    · rw [if_pos room]
      refine .inl ⟨rfl,by omega,⟨?_,?_,?_,?_⟩,rfl⟩
      · rw [List.length_append,← counted]
        rfl
      · rw [List.length_append,List.length_singleton,List.range_succ,List.map_append]
        congr 1
        · refine Eq.trans (List.map_congr_left ?_) front
          intro i member
          exact if_neg (by rw [counted]; exact Nat.ne_of_lt (List.mem_range.mp member))
        · exact congrArg (fun x => [x]) (if_pos counted.symm)
      · intro t same
        cases Option.some.inj same
        exact ⟨room,most⟩
      · intro i member
        rcases List.mem_append.mp member with old | new
        · exact written i old
        · cases List.mem_singleton.mp new
          show s.count < q.maxSize
          omega
    · rw [if_neg room]
      exact .inr ⟨⟨_,rfl⟩,rfl⟩

theorem remove_stores (stores : Stores q stored) (ran : q.remove = some (outcome,next)) :
    (∃ data rest, stored = data :: rest ∧ outcome = .removed data ∧ Stores next rest ∧ next.maxSize = q.maxSize) ∨
    ((∃ text, outcome = .thrown text) ∧ next = q) := by
  obtain ⟨counted,front,limit,written⟩ := stores
  unfold remove at ran
  cases handle : q.semaphore with
  | none =>
    rw [handle] at ran
    cases ran
    exact .inr ⟨⟨_,rfl⟩,rfl⟩
  | some s =>
    obtain ⟨within,most⟩ := limit s handle
    rw [count,handle] at counted
    replace counted : s.count = stored.length := counted
    rw [handle] at ran
    dsimp only at ran
    split at ran
    · cases ran
    · cases ran
      cases stored with
      | nil => contradiction
      | cons data rest =>
        rw [List.length_cons] at counted front
        rw [List.range_succ_eq_map,List.map_cons,List.map_map] at front
        obtain ⟨first,others⟩ := List.cons.inj front
        refine .inl ⟨data,rest,rfl,congrArg _ first,⟨?_,?_,?_,?_⟩,rfl⟩
        · show s.count-1 = rest.length
          omega
        · refine Eq.trans (List.map_congr_left ?_) others
          intro i member
          have low := List.mem_range.mp member
          exact if_pos (show i < q.maxSize-1 by omega)
        · intro t same
          cases Option.some.inj same
          exact ⟨Nat.le_trans (Nat.sub_le _ _) within,most⟩
        · intro i member
          rcases List.mem_append.mp member with old | new
          · exact written i old
          · have low := List.mem_range.mp new
            show i < q.maxSize
            omega

theorem enter_stores {request : Request τ} (stores : Stores q stored) (ran : request.enter q = some (outcome,next)) :
    next.maxSize = q.maxSize ∧ ((∃ data, outcome = .appended data ∧ stored.length < q.maxSize ∧ Stores next (stored ++ [data])) ∨
      (∃ data rest, stored = data :: rest ∧ outcome = .removed data ∧ Stores next rest) ∨
      (∃ text, outcome = .thrown text) ∧ next = q) := by
  cases request with
  | append data timeout =>
    have done := append_stores stores data
    rw [Option.some.inj ran] at done
    rcases done with ⟨same,room,stores',size⟩ | ⟨threw,unchanged⟩
    · exact ⟨size,.inl ⟨data,same,room,stores'⟩⟩
    · exact ⟨congrArg maxSize unchanged,.inr (.inr ⟨threw,unchanged⟩)⟩
  | remove timeout =>
    rcases remove_stores stores ran with ⟨data,rest,parts,same,stores',size⟩ | ⟨threw,unchanged⟩
    · exact ⟨size,.inr (.inl ⟨data,rest,parts,same,stores'⟩)⟩
    · exact ⟨congrArg maxSize unchanged,.inr (.inr ⟨threw,unchanged⟩)⟩

end MsgQueue

-- What one step does to the queue, whoever makes it.
theorem step_stores {s after : Threads τ} {stored : List τ} (stores : Stores s.queue stored) (step : QueueStep s event after) :
    after.queue.maxSize = s.queue.maxSize ∧ ∃ later, Stores after.queue later ∧
      stored ++ appended event = removed event ++ later ∧
      ∀ i text, event = .ends i (.thrown text) → after.queue = s.queue := by
  cases step with
  | calls outside => exact ⟨rfl,stored,stores,List.append_nil _,nofun⟩
  | timesOut waits finite => exact ⟨rfl,stored,stores,List.append_nil _,fun _ _ _ => rfl⟩
  | enters waits enters =>
    obtain ⟨size,⟨data,rfl,-,stores'⟩ | ⟨data,rest,rfl,rfl,stores'⟩ | ⟨⟨text,rfl⟩,rfl⟩⟩ :=
      MsgQueue.enter_stores stores enters
    · exact ⟨size,_,stores',rfl,nofun⟩
    · exact ⟨size,rest,stores',List.append_nil _,nofun⟩
    · exact ⟨size,stored,stores,List.append_nil _,fun _ _ _ => rfl⟩

theorem step_full {s after : Threads τ} {stored : List τ} (stores : Stores s.queue stored)
    (step : QueueStep s (.ends i outcome) after) (full : s.queue.count = s.queue.maxSize)
    (asks : s.waiting i = some (.append data timeout)) : ∃ text, outcome = .thrown text := by
  cases step with
  | timesOut waits finite => exact ⟨_,rfl⟩
  | enters waits enters =>
    cases asks.symm.trans waits
    have done := MsgQueue.append_stores stores data
    rw [Option.some.inj enters] at done
    rcases done with ⟨-,room,-⟩ | ⟨threw,-⟩
    · rw [← full,stores.count] at room
      exact absurd room (Nat.lt_irrefl _)
    · exact threw

-- The queue is a bounded FIFO over a run: what was appended is what was removed, in the
-- same order, followed by what is stored. The stored elements are at the front of the
-- block and as many as the semaphore counts, a call on a full queue that is not a remove
-- throws, whatever throws changes nothing, and no index is written that the block does
-- not have.
structure BoundedFifo (maxSize : Nat) (run : List (Transition (Threads τ) (QueueEvent τ))) (last : Threads τ) : Prop where
  stored : ∃ stored, run.flatMap (fun t => appended t.event) = run.flatMap (fun t => removed t.event) ++ stored ∧
    last.queue.count = stored.length ∧ (List.range last.queue.count).map last.queue.queue = stored ∧
    stored.length ≤ maxSize
  throws : ∀ t ∈ run, ∀ i text, t.event = .ends i (.thrown text) → t.after.queue = t.before.queue
  full : ∀ t ∈ run, t.before.queue.count = maxSize → ∀ i data timeout, t.before.waiting i = some (.append data timeout) →
    ∀ outcome, t.event = .ends i outcome → ∃ text, outcome = .thrown text
  written : ∀ i ∈ last.queue.written, i < maxSize

-- The abstract queue has no block and no bound.
def Refines (maxSize : Nat) (s : Threads τ) (q : Fifo τ) : Prop := s.queue.maxSize = maxSize ∧ Stores s.queue q.queue
def fifoEvent (t : Transition (Threads τ) (QueueEvent τ)) : FifoEvent τ := ⟨appended t.event,removed t.event⟩

theorem new_refines (maxSize : Nat) (memory : Nat → τ) : Refines maxSize (Threads.new maxSize memory) ⟨[],[]⟩ :=
  ⟨rfl,MsgQueue.new_stores maxSize memory⟩

theorem refines_step {before after : Threads τ} {q : Fifo τ} (refines : Refines maxSize before q)
    (step : QueueStep before event after) :
    ∃ next, Refines maxSize after next ∧ FifoStep q (fifoEvent ⟨before,event,after⟩) next := by
  obtain ⟨size,stores⟩ := refines
  obtain ⟨same,later,stores',parts,-⟩ := step_stores stores step
  exact ⟨⟨q.taken ++ removed event,later⟩,⟨same.trans size,stores'⟩,.move parts⟩

def Reached (maxSize : Nat) (s : Threads τ) : Prop := ∃ q, Refines maxSize s q

theorem reached_step (before : Threads τ) (event : QueueEvent τ) (after : Threads τ) (reached : Reached maxSize before)
    (step : QueueStep before event after) : Reached maxSize after := by
  obtain ⟨q,refines⟩ := reached
  obtain ⟨next,refines',-⟩ := refines_step refines step
  exact ⟨next,refines'⟩

theorem run_bounded_fifo {memory : Nat → τ} (path : Path QueueStep (Threads.new maxSize memory) run last) :
    BoundedFifo maxSize run last := by
  have start : Reached maxSize (Threads.new maxSize memory) := ⟨_,new_refines maxSize memory⟩
  obtain ⟨q,moves,⟨size,stores⟩,queued,events⟩ := path.simulates (Refines maxSize) fifoEvent (new_refines maxSize memory)
    fun _ _ _ _ refines step => refines_step refines step
  have history := fifo_history queued
  have gone := fifo_taken queued
  rw [events,List.flatMap_map] at history gone
  refine ⟨⟨q.queue,?_,?_,?_,?_⟩,?_,?_,?_⟩
  · calc run.flatMap (fun t => appended t.event)
      _ = q.taken ++ q.queue := history.symm
      _ = run.flatMap (fun t => removed t.event) ++ q.queue := congrArg (· ++ q.queue) gone
  · exact stores.count
  · rw [stores.count]
    exact stores.front
  · exact size ▸ stores.bounded
  · refine path.along (Reached maxSize) (fun before event after => ∀ i text, event = .ends i (.thrown text) →
      after.queue = before.queue) start reached_step ?_
    rintro before event after ⟨q,-,stores⟩ step
    obtain ⟨-,-,-,-,unchanged⟩ := step_stores stores step
    exact unchanged
  · refine path.along (Reached maxSize) (fun before event _ => before.queue.count = maxSize → ∀ i data timeout,
      before.waiting i = some (.append data timeout) → ∀ outcome, event = .ends i outcome → ∃ text, outcome = .thrown text)
      start reached_step ?_
    rintro before event after ⟨q,size,stores⟩ step full i data timeout asks outcome rfl
    exact step_full stores step (full.trans size.symm) asks
  · rw [← size]
    exact stores.written

theorem run_bounded_fifo_full : ∃ (run : List (Transition (Threads Nat) (QueueEvent Nat))) (last : Threads Nat),
    run.map Transition.event = [.calls 0 (.append 7 infinite),.calls 1 (.append 8 infinite),.ends 0 (.appended 7),
      .ends 1 (.thrown "append to queue error, the queue is full"),.calls 2 (.remove 0),.ends 2 (.removed 7)] ∧
    BoundedFifo 1 run last := by
  have one : Path QueueStep (Threads.new 1 fun _ => 0) _ _ := .step .nil (.calls rfl : QueueStep _ (.calls 0 (.append 7 infinite)) _)
  have two := one.step (.calls rfl : QueueStep _ (.calls 1 (.append 8 infinite)) _)
  have three := two.step (.enters rfl rfl : QueueStep _ (.ends 0 (.appended 7)) _)
  have four := three.step (.enters rfl rfl : QueueStep _ (.ends 1 (.thrown "append to queue error, the queue is full")) _)
  have five := four.step (.calls rfl : QueueStep _ (.calls 2 (.remove 0)) _)
  have six := five.step (.enters rfl rfl : QueueStep _ (.ends 2 (.removed 7)) _)
  exact ⟨_,_,rfl,run_bounded_fifo six⟩

end PcNetwork.Libbase
