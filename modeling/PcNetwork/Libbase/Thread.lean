import PcNetwork.Library.Heap
import Mathlib.Logic.Function.Basic
import Mathlib.Data.List.Count
import Mathlib.Data.List.Nodup

namespace PcNetwork.Libbase

def maxThredNum : Nat := 10

-- An index that is not one of the array.
inductive ThreadFault where
  | outside
deriving DecidableEq

-- Handles are numbered as _beginthreadex returns them. An entry is none while it has
-- not been written to, and when it is the 0 of a creation that failed.
structure Thread where
  threadHandle : Nat → Option Nat
  threadNum : UInt32
  delegate : Option Nat
  created : Nat
  closed : List Nat

-- The creations of an open that succeed before one fails.
inductive ThreadCall where
  | opens (num : UInt32) (creations : Nat)
  | close
deriving DecidableEq

namespace Thread

def new (delegate : Option Nat) : Thread := ⟨fun _ => none,0,delegate,0,[]⟩

-- A creation that fails ends the loop with an exception.
def createLoop (creations : Nat) : List Nat → Thread → Except ThreadFault Thread
  | [],s => .ok s
  | i :: rest,s =>
    if maxThredNum ≤ i then .error .outside
    else if i < creations then
      createLoop creations rest {s with threadHandle := Function.update s.threadHandle i (some s.created), created := s.created+1}
    else .ok {s with threadHandle := Function.update s.threadHandle i none}

def opens (s : Thread) (num : UInt32) (creations : Nat) : Except ThreadFault Thread :=
  if s.delegate = none then .ok s
  else if maxThredNum ≤ num.toNat then .ok s
  else createLoop creations (List.range num.toNat) {s with threadNum := num}

-- The rounds left are the number in the counter, which is counted down by the test
-- that ends the loop as well.
def closeLoop : Nat → Thread → Except ThreadFault Thread
  | 0,s => .ok {s with threadNum := s.threadNum-1}
  | left+1,s =>
    let index := s.threadNum-1
    if maxThredNum ≤ index.toNat then .error .outside
    else closeLoop left {s with threadNum := index, closed := s.closed ++ (s.threadHandle index.toNat).toList}

def close (s : Thread) : Except ThreadFault Thread :=
  if s.threadNum = 0 then .ok s else closeLoop s.threadNum.toNat s

def perform (s : Thread) : ThreadCall → Except ThreadFault Thread
  | .opens num creations => s.opens num creations
  | .close => s.close

def run (s : Thread) (calls : List ThreadCall) : Except ThreadFault Thread := calls.foldlM perform s

end Thread

-- What the calls have come to: nothing is open, threads are, or close has been called
-- after that.
inductive Phase where
  | idle
  | opened (num : Nat) (creations : Nat)
  | spent
deriving DecidableEq

def Phase.after : Phase → ThreadCall → Phase
  | _,.opens num creations => if num = 0 then .idle else .opened num.toNat creations
  | .opened _ _,.close => .spent
  | phase,.close => phase

def phase (calls : List ThreadCall) : Phase := calls.foldl Phase.after .idle

-- Whether an entry of the array was last written with a handle.
def enters (before : Nat → Bool) : ThreadCall → Nat → Bool
  | .opens num creations,j => if num.toNat ≤ j then before j else if j = creations then false else decide (j < creations) || before j
  | .close,j => before j

def entered (calls : List ThreadCall) : Nat → Bool := calls.foldl enters fun _ => false

-- Every open is for less than the most threads, and not while threads are open.
def Alternates (calls : List ThreadCall) : Prop :=
  ∀ earlier num creations later, calls = earlier ++ .opens num creations :: later →
    num.toNat < maxThredNum ∧ ∀ n k, phase earlier ≠ .opened n k

-- The destructor closes as well.
def ended (calls : List ThreadCall) : List ThreadCall := calls ++ [.close]

-- No close follows another one for the same threads, and none follows an open that
-- failed in front of entries with handles of earlier threads.
def ClosesApart (calls : List ThreadCall) : Prop :=
  ∀ earlier later, calls = earlier ++ .close :: later → phase earlier ≠ .spent ∧
    ∀ num creations, phase earlier = .opened num creations → ∀ j, creations < j → j < num → entered earlier j = false

theorem phase_snoc (calls : List ThreadCall) (call : ThreadCall) : phase (calls ++ [call]) = (phase calls).after call := by
  rw [phase,List.foldl_append]
  rfl

theorem entered_snoc (calls : List ThreadCall) (call : ThreadCall) : entered (calls ++ [call]) = enters (entered calls) call := by
  rw [entered,List.foldl_append]
  rfl

theorem Alternates.earlier (alternates : Alternates (calls ++ more)) : Alternates calls := by
  intro earlier num creations later split
  exact alternates earlier num creations (later ++ more) (by rw [split]; simp)

theorem ClosesApart.earlier (apart : ClosesApart (calls ++ more)) : ClosesApart calls := by
  intro earlier later split
  exact apart earlier (later ++ more) (by rw [split]; simp)

-- The loop of open fills the entries in front of the creation that fails.
theorem createLoop_ran (creations count start : Nat) (s : Thread) (small : start+count ≤ maxThredNum) :
    ∃ t, Thread.createLoop creations (List.range' start count) s = .ok t ∧ t.threadNum = s.threadNum ∧ t.delegate = s.delegate ∧
      t.closed = s.closed ∧ t.created = s.created+(min (start+count) creations-start) ∧
      ∀ j, t.threadHandle j = if j < start ∨ start+count ≤ j then s.threadHandle j
        else if j < creations then some (s.created+(j-start)) else if j = max start creations then none else s.threadHandle j := by
  induction count generalizing start s with
  | zero =>
    refine ⟨s,rfl,rfl,rfl,rfl,by omega,?_⟩
    intro j
    rw [if_pos (by omega)]
  | succ count ih =>
    rw [List.range'_succ,Thread.createLoop,if_neg (by omega)]
    split
    · rename_i made
      obtain ⟨t,ran,num,delegate,closed,created,handles⟩ := ih (start+1) _ (by omega)
      refine ⟨t,ran,num,delegate,closed,by rw [created]; dsimp only; omega,?_⟩
      intro j
      rw [handles]
      dsimp only
      by_cases same : j = start
      · subst same
        rw [Function.update_self,if_pos (by omega),if_neg (by omega),if_pos made,Nat.sub_self,Nat.add_zero]
      · rw [Function.update_of_ne same]
        by_cases outside : j < start ∨ start+(count+1) ≤ j
        · rw [if_pos (by omega),if_pos outside]
        · rw [if_neg (by omega),if_neg outside]
          by_cases made_too : j < creations
          · rw [if_pos made_too,if_pos made_too]
            congr 1
            omega
          · rw [if_neg made_too,if_neg made_too,show max (start+1) creations = max start creations by omega]
    · rename_i failed
      refine ⟨_,rfl,rfl,rfl,rfl,by dsimp only; omega,?_⟩
      intro j
      dsimp only
      by_cases same : j = start
      · subst same
        rw [Function.update_self,if_neg (by omega),if_neg (by omega),if_pos (by omega)]
      · rw [Function.update_of_ne same]
        split
        · rfl
        · rw [if_neg (by omega),if_neg (by omega)]

-- What closing counts down through.
theorem closeLoop_ran (s : Thread) (left : Nat) (counter : s.threadNum.toNat = left) (small : left ≤ maxThredNum) :
    Thread.closeLoop left s = .ok {s with
      threadNum := 0xFFFFFFFF,
      closed := s.closed ++ (List.range left).reverse.filterMap s.threadHandle} := by
  induction left generalizing s with
  | zero =>
    have zero : s.threadNum = 0 := UInt32.toNat_inj.mp counter
    simp only [Thread.closeLoop,zero,List.range_zero,List.reverse_nil,List.filterMap_nil,List.append_nil]
    rfl
  | succ left ih =>
    have index : (s.threadNum-1).toNat = left := by
      rw [UInt32.toNat_sub_of_le _ _ (by rw [UInt32.le_iff_toNat_le,counter]; simp),counter]
      simp
    rw [Thread.closeLoop,if_neg (by rw [index]; omega),ih _ index (by omega)]
    simp only [index]
    rw [List.range_succ,List.reverse_append,List.filterMap_append,List.append_assoc]
    cases here : s.threadHandle left <;> simp [here]

-- The handles that no close has passed on are those of the threads that are open.
structure Rests (s : Thread) : Prop where
  closed : ∀ h, h ∈ s.closed ↔ h < s.created
  entries : ∀ j h, s.threadHandle j = some h → h < s.created

structure Opened (num creations old : Nat) (s : Thread) : Prop where
  counter : s.threadNum.toNat = num
  positive : 0 < num
  small : num < maxThredNum
  created : s.created = old+min num creations
  closed : ∀ h, h ∈ s.closed ↔ h < old
  filled : ∀ j < min num creations, s.threadHandle j = some (old+j)
  failed : creations < num → s.threadHandle creations = none
  behind : ∀ j h, min num creations ≤ j → s.threadHandle j = some h → h < old

def Standing (s : Thread) : Phase → Prop
  | .idle => s.threadNum = 0 ∧ Rests s
  | .opened num creations => ∃ old, Opened num creations old s
  | .spent => s.threadNum = 0xFFFFFFFF ∧ Rests s

structure Stands (calls : List ThreadCall) (s : Thread) : Prop where
  bound : s.delegate ≠ none
  entries : ∀ j, (s.threadHandle j).isSome = entered calls j
  once : s.closed.Nodup
  standing : Standing s (phase calls)

theorem new_stands (bound : delegate ≠ none) : Stands [] (Thread.new delegate) :=
  ⟨bound,fun _ => rfl,.nil,rfl,by simp [Thread.new],by simp [Thread.new]⟩

theorem Stands.rests (stands : Stands calls s) (closed : ∀ n k, phase calls ≠ .opened n k) : Rests s := by
  have standing := stands.standing
  cases at_phase : phase calls with
  | idle =>
    rw [at_phase] at standing
    exact standing.2
  | opened n k => exact absurd at_phase (closed n k)
  | spent =>
    rw [at_phase] at standing
    exact standing.2

theorem Rests.opened (rests : Rests s) (positive : 0 < num) (small : num < maxThredNum) (counter : t.threadNum.toNat = num)
    (same : t.closed = s.closed) (created : t.created = s.created+min num creations)
    (handles : ∀ j, t.threadHandle j = if num ≤ j then s.threadHandle j
      else if j < creations then some (s.created+j) else if j = creations then none else s.threadHandle j) :
    Opened num creations s.created t := by
  refine ⟨counter,positive,small,created,?_,?_,?_,?_⟩
  · intro h
    rw [same]
    exact rests.closed h
  · intro j made
    rw [handles,if_neg (by omega),if_pos (by omega)]
  · intro failed
    rw [handles,if_neg (by omega),if_neg (by omega),if_pos rfl]
  · intro j h behind here
    rw [handles] at here
    split at here
    · exact rests.entries j h here
    · rw [if_neg (by omega)] at here
      split at here
      · cases here
      · exact rests.entries j h here

theorem opens_stands (stands : Stands calls s) (small : num.toNat < maxThredNum) (closed : ∀ n k, phase calls ≠ .opened n k) :
    ∃ t, s.opens num creations = .ok t ∧ Stands (calls ++ [.opens num creations]) t := by
  have rests := stands.rests closed
  obtain ⟨t,ran,counter,delegate,same,created,handles⟩ := createLoop_ran creations num.toNat 0 {s with threadNum := num} (by omega)
  rw [← List.range_eq_range'] at ran
  simp only [Nat.zero_add,Nat.sub_zero,Nat.not_lt_zero,false_or,Nat.zero_max] at created handles
  refine ⟨t,by rw [Thread.opens,if_neg stands.bound,if_neg (by omega),ran],?_,?_,?_,?_⟩
  · rw [delegate]
    exact stands.bound
  · intro j
    rw [entered_snoc,handles]
    simp only [enters,← stands.entries]
    split
    · rfl
    · split
      · rename_i made
        rw [if_neg (ne_of_lt made)]
        simp [made]
      · rename_i unmade
        split
        · rfl
        · simp [unmade]
  · rw [same]
    exact stands.once
  · rw [phase_snoc]
    by_cases zero : num = 0
    · subst zero
      have idle : (phase calls).after (.opens 0 creations) = .idle := by cases phase calls <;> rfl
      rw [idle]
      refine ⟨counter,?_,?_⟩
      · intro h
        rw [same,created]
        exact rests.closed h
      · intro j h here
        rw [handles,if_pos (by simp)] at here
        rw [created]
        exact rests.entries j h here
    · have opened : (phase calls).after (.opens num creations) = .opened num.toNat creations := by
        cases phase calls <;> simp [Phase.after,zero]
      have positive : 0 < num.toNat := Nat.pos_of_ne_zero fun none => zero (UInt32.toNat_inj.mp none)
      rw [opened]
      exact ⟨s.created,rests.opened positive small (by rw [counter]) same created handles⟩

theorem opened_entries (opened : Opened num creations old s) (clean : ∀ j, creations < j → j < num → s.threadHandle j = none)
    (inside : j < num) (here : s.threadHandle j = some h) : j < min num creations ∧ h = old+j := by
  by_cases made : j < min num creations
  · rw [opened.filled j made] at here
    exact ⟨made,(Option.some.inj here).symm⟩
  · by_cases same : j = creations
    · subst same
      rw [opened.failed inside] at here
      cases here
    · rw [clean j (by omega) inside] at here
      cases here

theorem close_opened (opened : Opened num creations old s) : s.close = .ok {s with
    threadNum := 0xFFFFFFFF,
    closed := s.closed ++ (List.range num).reverse.filterMap s.threadHandle} := by
  have nonzero : s.threadNum ≠ 0 := by
    intro zero
    have counter := opened.counter
    rw [zero] at counter
    exact absurd counter.symm (ne_of_gt opened.positive)
  rw [Thread.close,if_neg nonzero,opened.counter,closeLoop_ran s num opened.counter (le_of_lt opened.small)]

theorem mem_closing {s : Thread} : h ∈ (List.range num).reverse.filterMap s.threadHandle ↔ ∃ j < num, s.threadHandle j = some h := by
  simp only [List.mem_filterMap,List.mem_reverse,List.mem_range]

theorem closing_nodup (opened : Opened num creations old s) (clean : ∀ j, creations < j → j < num → s.threadHandle j = none) :
    ((List.range num).reverse.filterMap s.threadHandle).Nodup := by
  refine List.pairwise_filterMap.mpr ((List.nodup_reverse.mpr List.nodup_range).imp_of_mem ?_)
  intro i j inside_i inside_j apart a here b there same
  rw [List.mem_reverse,List.mem_range] at inside_i inside_j
  obtain ⟨_,rfl⟩ := opened_entries opened clean inside_i here
  obtain ⟨_,rfl⟩ := opened_entries opened clean inside_j there
  omega

-- The close passes on the handles that the open kept, so no handle is left.
theorem close_rests (opened : Opened num creations old s) (clean : ∀ j, creations < j → j < num → s.threadHandle j = none) :
    Rests {s with
      threadNum := 0xFFFFFFFF,
      closed := s.closed ++ (List.range num).reverse.filterMap s.threadHandle} := by
  have created := opened.created
  constructor
  · intro h
    simp only [List.mem_append,mem_closing,opened.closed]
    constructor
    · rintro (older | ⟨j,inside,here⟩)
      · omega
      · obtain ⟨_,rfl⟩ := opened_entries opened clean inside here
        omega
    · intro below
      by_cases older : h < old
      · exact .inl older
      · refine .inr ⟨h-old,by omega,?_⟩
        rw [opened.filled _ (by omega)]
        congr 1
        omega
  · intro j h here
    dsimp only at here ⊢
    by_cases made : j < min num creations
    · rw [opened.filled j made] at here
      cases here
      omega
    · have older := opened.behind j h (by omega) here
      omega

theorem close_stands (stands : Stands calls s) (unspent : phase calls ≠ .spent)
    (clean : ∀ num creations, phase calls = .opened num creations → ∀ j, creations < j → j < num → entered calls j = false) :
    ∃ t, s.close = .ok t ∧ Stands (calls ++ [.close]) t := by
  have standing := stands.standing
  cases at_phase : phase calls with
  | idle =>
    rw [at_phase] at standing
    refine ⟨s,by rw [Thread.close,if_pos standing.1],stands.bound,?_,stands.once,?_⟩
    · intro j
      rw [entered_snoc]
      exact stands.entries j
    · rw [phase_snoc,at_phase]
      exact standing
  | spent => exact absurd at_phase unspent
  | opened num creations =>
    rw [at_phase] at standing
    obtain ⟨old,opened⟩ := standing
    have clean : ∀ j, creations < j → j < num → s.threadHandle j = none := by
      intro j behind inside
      have unset := clean num creations at_phase j behind inside
      rw [← stands.entries,Option.isSome_eq_false_iff] at unset
      exact Option.isNone_iff_eq_none.mp unset
    refine ⟨_,close_opened opened,stands.bound,?_,?_,?_⟩
    · intro j
      rw [entered_snoc]
      exact stands.entries j
    · refine List.nodup_append.mpr ⟨stands.once,closing_nodup opened clean,?_⟩
      rintro h before _ closing rfl
      obtain ⟨j,inside,here⟩ := mem_closing.mp closing
      obtain ⟨_,rfl⟩ := opened_entries opened clean inside here
      have older := (opened.closed _).mp before
      omega
    · rw [phase_snoc,at_phase]
      exact ⟨rfl,close_rests opened clean⟩

-- A close that passes on no handle for a second time is one that the condition allows.
theorem close_meets (stands : Stands calls s) (ran : s.close = .ok t) (once : t.closed.Nodup) : phase calls ≠ .spent ∧
    ∀ num creations, phase calls = .opened num creations → ∀ j, creations < j → j < num → entered calls j = false := by
  have standing := stands.standing
  constructor
  · intro spent
    rw [spent] at standing
    obtain ⟨counter,_⟩ := standing
    rw [Thread.close,counter,if_neg (by decide)] at ran
    have far : Thread.closeLoop (4294967294+1) s = .error .outside := by
      rw [Thread.closeLoop,counter]
      rfl
    cases far.symm.trans ran
  · intro num creations at_phase j behind inside
    rw [at_phase] at standing
    obtain ⟨old,opened⟩ := standing
    rw [close_opened opened] at ran
    cases ran
    rw [← stands.entries]
    cases here : s.threadHandle j with
    | none => rfl
    | some h =>
      have before : h ∈ s.closed := (opened.closed h).mpr (opened.behind j h (by omega) here)
      exact absurd rfl ((List.nodup_append.mp once).2.2 h before h (mem_closing.mpr ⟨j,inside,here⟩))

-- Whatever the calls, a handle that is closed or held is one of those that were created,
-- and what has been closed stays so.
structure Bounded (s : Thread) : Prop where
  closed : ∀ h ∈ s.closed, h < s.created
  entries : ∀ j h, s.threadHandle j = some h → h < s.created

theorem createLoop_bounded (bounded : Bounded s) (ran : Thread.createLoop creations indices s = .ok t) :
    Bounded t ∧ s.closed <+: t.closed := by
  induction indices generalizing s with
  | nil =>
    cases ran
    exact ⟨bounded,List.prefix_refl _⟩
  | cons i rest ih =>
    simp only [Thread.createLoop] at ran
    split at ran
    · cases ran
    · split at ran
      · have next : Bounded {s with threadHandle := Function.update s.threadHandle i (some s.created), created := s.created+1} := by
          refine ⟨fun h member => Nat.lt_succ_of_lt (bounded.closed h member),?_⟩
          intro j h here
          dsimp only at here ⊢
          by_cases same : j = i
          · subst same
            rw [Function.update_self] at here
            cases here
            exact Nat.lt_succ_self _
          · rw [Function.update_of_ne same] at here
            exact Nat.lt_succ_of_lt (bounded.entries j h here)
        obtain ⟨last,further⟩ := ih next ran
        exact ⟨last,further⟩
      · cases ran
        refine ⟨⟨bounded.closed,?_⟩,List.prefix_refl _⟩
        intro j h here
        dsimp only at here
        by_cases same : j = i
        · subst same
          rw [Function.update_self] at here
          cases here
        · rw [Function.update_of_ne same] at here
          exact bounded.entries j h here

theorem closeLoop_bounded (bounded : Bounded s) (ran : Thread.closeLoop left s = .ok t) : Bounded t ∧ s.closed <+: t.closed := by
  induction left generalizing s with
  | zero =>
    cases ran
    exact ⟨⟨bounded.closed,bounded.entries⟩,List.prefix_refl _⟩
  | succ left ih =>
    simp only [Thread.closeLoop] at ran
    split at ran
    · cases ran
    · have next : Bounded {s with
          threadNum := s.threadNum-1, closed := s.closed ++ (s.threadHandle (s.threadNum-1).toNat).toList} := by
        refine ⟨?_,bounded.entries⟩
        intro h member
        rcases List.mem_append.mp member with before | now
        · exact bounded.closed h before
        · exact bounded.entries _ h (Option.mem_toList.mp now)
      obtain ⟨last,further⟩ := ih next ran
      exact ⟨last,(List.prefix_append _ _).trans further⟩

theorem perform_bounded (bounded : Bounded s) (ran : s.perform call = .ok t) : Bounded t ∧ s.closed <+: t.closed := by
  have unchanged : s = t → Bounded t ∧ s.closed <+: t.closed := by
    rintro rfl
    exact ⟨bounded,List.prefix_refl _⟩
  cases call with
  | opens num creations =>
    simp only [Thread.perform,Thread.opens] at ran
    split at ran
    · exact unchanged (Except.ok.inj ran)
    · split at ran
      · exact unchanged (Except.ok.inj ran)
      · exact createLoop_bounded (s := {s with threadNum := num}) ⟨bounded.closed,bounded.entries⟩ ran
  | close =>
    simp only [Thread.perform,Thread.close] at ran
    split at ran
    · exact unchanged (Except.ok.inj ran)
    · exact closeLoop_bounded bounded ran

theorem new_bounded (delegate : Option Nat) : Bounded (Thread.new delegate) :=
  ⟨by simp [Thread.new],by simp [Thread.new]⟩

theorem run_snoc (s : Thread) (calls : List ThreadCall) (call : ThreadCall) :
    s.run (calls ++ [call]) = s.run calls >>= fun t => t.perform call := foldlM_one_more ..

theorem run_bounded (ran : (Thread.new delegate).run calls = .ok s) : Bounded s := by
  induction calls using List.reverseRecOn generalizing s with
  | nil =>
    cases ran
    exact new_bounded delegate
  | append_singleton calls call ih =>
    rw [run_snoc] at ran
    obtain ⟨before,earlier,now⟩ := sequence_returned ran
    exact (perform_bounded (ih earlier) now).1

theorem ClosesApart.snoc (apart : ClosesApart calls) (meets : call = .close → phase calls ≠ .spent ∧
    ∀ num creations, phase calls = .opened num creations → ∀ j, creations < j → j < num → entered calls j = false) :
    ClosesApart (calls ++ [call]) := by
  intro earlier later split
  rcases List.eq_nil_or_concat later with rfl | ⟨most,final,rfl⟩
  · obtain ⟨rfl,same⟩ := List.append_inj' split rfl
    cases same
    exact meets rfl
  · rw [List.concat_eq_append,← List.cons_append,← List.append_assoc] at split
    exact apart _ _ (List.append_inj' split rfl).1

theorem apart_run (bound : delegate ≠ none) (alternates : Alternates calls) (apart : ClosesApart calls) :
    ∃ s, (Thread.new delegate).run calls = .ok s ∧ Stands calls s := by
  induction calls using List.reverseRecOn with
  | nil => exact ⟨_,rfl,new_stands bound⟩
  | append_singleton calls call ih =>
    obtain ⟨s,ran,stands⟩ := ih alternates.earlier apart.earlier
    rw [run_snoc,ran]
    cases call with
    | opens num creations =>
      obtain ⟨small,closed⟩ := alternates calls num creations [] rfl
      exact opens_stands stands small closed
    | close =>
      obtain ⟨unspent,clean⟩ := apart calls [] rfl
      exact close_stands stands unspent clean

theorem run_apart (bound : delegate ≠ none) (alternates : Alternates calls) (ran : (Thread.new delegate).run calls = .ok t)
    (once : t.closed.Nodup) : ClosesApart calls := by
  induction calls using List.reverseRecOn generalizing t with
  | nil =>
    intro earlier later split
    simp at split
  | append_singleton calls call ih =>
    rw [run_snoc] at ran
    obtain ⟨s,earlier,now⟩ := sequence_returned ran
    have grown := (perform_bounded (run_bounded earlier) now).2
    have apart := ih alternates.earlier earlier (once.sublist grown.sublist)
    obtain ⟨_,same,stands⟩ := apart_run bound alternates.earlier apart
    cases earlier.symm.trans same
    refine apart.snoc ?_
    rintro rfl
    exact close_meets stands now once

theorem Alternates.ended (alternates : Alternates calls) : Alternates (ended calls) := by
  intro earlier num creations later split
  rcases List.eq_nil_or_concat later with rfl | ⟨most,final,rfl⟩
  · cases (List.append_inj' split rfl).2
  · rw [List.concat_eq_append,← List.cons_append,← List.append_assoc] at split
    exact alternates _ _ _ _ (List.append_inj' split rfl).1

end PcNetwork.Libbase
