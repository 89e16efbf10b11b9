import PcNetwork.Library.Heap
import Mathlib.Data.List.Count
import Mathlib.Data.List.Nodup

namespace PcNetwork
variable {τ : Type}

-- A reference to an object that others refer to as well, with the counter they share.
structure Ref where
  p : Option Nat
  u : Option Nat

-- The objects, the counters, and the raw pointers that references were made from.
structure Shared (τ : Type) where
  objects : Heap τ
  counters : Heap Int
  given : List Nat

namespace Shared

def empty : Shared τ := ⟨.empty,.empty,[]⟩

def addref (m : Shared τ) (u : Option Nat) : Except HeapFault (Shared τ) :=
  match u with
  | none => .ok m
  | some c => do
    let counters ← m.counters.modify (some c) (· + 1)
    .ok {m with counters := counters}

-- The last reference deletes the object and the counter.
def release (m : Shared τ) (r : Ref) : Except HeapFault (Shared τ) :=
  match r.p with
  | none => .ok m
  | some a => do
    let counters ← m.counters.modify r.u (· - 1)
    let useCount ← counters.read r.u
    if useCount ≤ 0 then do
      let objects ← m.objects.delete (some a)
      let counters ← counters.delete r.u
      .ok {m with objects := objects, counters := counters}
    else .ok {m with counters := counters}

-- A new counter for a raw pointer, which may be NULL.
def adopt (m : Shared τ) (ptr : Option Nat) : Shared τ :=
  {m with counters := m.counters.alloc 1, given := ptr.toList ++ m.given}

def adopted (m : Shared τ) (ptr : Option Nat) : Ref := ⟨ptr,some m.counters.count⟩

end Shared

-- What is not there was deleted, or is still to be allocated.
structure Tidy (h : Heap ν) : Prop where
  there : ∀ a, h.cells a = none ↔ a ∈ h.deleted ∨ h.count ≤ a
  once : h.deleted.Nodup
  known : ∀ a ∈ h.deleted, a < h.count

namespace Tidy
variable {ν : Type} {h : Heap ν} {v w : ν} {a : Nat}

theorem empty : Tidy (Heap.empty : Heap ν) := ⟨by simp [Heap.empty],.nil,by simp [Heap.empty]⟩

theorem below (tidy : Tidy h) (here : h.cells a = some v) : a < h.count := by
  by_contra above
  rw [(tidy.there a).mpr (.inr (Nat.le_of_not_lt above))] at here
  cases here

theorem fresh (tidy : Tidy h) : h.cells h.count = none := (tidy.there _).mpr (.inr (Nat.le_refl _))

theorem alloc (tidy : Tidy h) (v : ν) : Tidy (h.alloc v) := by
  refine ⟨?_,tidy.once,fun a member => Nat.lt_succ_of_lt (tidy.known a member)⟩
  intro a
  by_cases same : a = h.count
  · subst same
    have outside : h.count ∉ h.deleted := fun member => Nat.lt_irrefl _ (tidy.known _ member)
    simp [Heap.alloc,outside]
  · simp only [Heap.alloc,Heap.put_other same,tidy.there a]
    have apart : h.count ≤ a ↔ h.count+1 ≤ a := by omega
    rw [apart]

theorem write (tidy : Tidy h) (here : h.cells a = some v) (w : ν) :
    Tidy {h with cells := Heap.put h.cells a (some w)} := by
  refine ⟨?_,tidy.once,tidy.known⟩
  intro b
  by_cases same : b = a
  · subst same
    have there := tidy.there b
    rw [here] at there
    simp only [Heap.put_same,← there]
    simp
  · simp only [Heap.put_other same,tidy.there b]

theorem delete (tidy : Tidy h) (here : h.cells a = some v) :
    Tidy {h with cells := Heap.put h.cells a none,deleted := h.deleted ++ [a]} := by
  have outside : a ∉ h.deleted := by
    intro member
    rw [(tidy.there a).mpr (.inl member)] at here
    cases here
  refine ⟨?_,?_,?_⟩
  · intro b
    by_cases same : b = a
    · subst same
      simp
    · simp only [Heap.put_other same,tidy.there b,List.mem_append,List.mem_singleton,same,or_false]
  · exact List.nodup_append.mpr ⟨tidy.once,List.nodup_singleton _,by
      rintro b member c single rfl
      rw [List.mem_singleton.mp single] at member
      exact outside member⟩
  · intro b member
    rcases List.mem_append.mp member with before | now
    · exact tidy.known b before
    · rw [List.mem_singleton.mp now]
      exact tidy.below here

end Tidy

namespace Shared

def holders (refs : List Ref) (a : Nat) : Nat := refs.countP fun r => r.p = some a

-- The counter of an object that is referred to counts the references to it, and an
-- object is deleted once it was given and has none.
structure Counts (refs : List Ref) (m : Shared τ) : Prop where
  objects : Tidy m.objects
  counters : Tidy m.counters
  counted : ∀ r ∈ refs, ∀ a, r.p = some a → ∃ c, r.u = some c ∧ m.counters.cells c = some (holders refs a : Int)
  empty : ∀ r ∈ refs, ∀ c, r.u = some c → m.counters.cells c ≠ none
  same : ∀ r ∈ refs, ∀ s ∈ refs, ∀ c, r.u = some c → s.u = some c → r.p = s.p
  one : ∀ r ∈ refs, ∀ s ∈ refs, ∀ a, r.p = some a → s.p = some a → r.u = s.u
  known : ∀ r ∈ refs, ∀ a, r.p = some a → a ∈ m.given
  created : ∀ a ∈ m.given, a < m.objects.count
  gone : ∀ a, a ∈ m.objects.deleted ↔ a ∈ m.given ∧ holders refs a = 0

variable {m : Shared τ} {refs : List Ref} {r : Ref}

theorem holders_cons (r : Ref) (refs : List Ref) (a : Nat) :
    holders (r :: refs) a = holders refs a+(if r.p = some a then 1 else 0) := by
  simp [holders,List.countP_cons]

theorem holders_pos : 0 < holders refs a ↔ ∃ r ∈ refs, r.p = some a := by
  simp [holders,List.countP_pos_iff]

theorem empty_counts : Counts [] (empty : Shared τ) :=
  ⟨.empty,.empty,by simp,by simp,by simp,by simp,by simp,by simp [empty],by simp [empty,Heap.empty]⟩

theorem Counts.perm (counts : Counts refs m) (perm : refs.Perm others) : Counts others m := by
  have count : ∀ a, holders others a = holders refs a := fun a => (perm.countP_eq _).symm
  have back : ∀ r ∈ others, r ∈ refs := fun r member => perm.mem_iff.mpr member
  refine ⟨counts.objects,counts.counters,?_,?_,?_,?_,?_,counts.created,?_⟩
  · intro r member a here
    rw [count]
    exact counts.counted r (back r member) a here
  · exact fun r member => counts.empty r (back r member)
  · exact fun r member s member_too => counts.same r (back r member) s (back s member_too)
  · exact fun r member s member_too => counts.one r (back r member) s (back s member_too)
  · exact fun r member => counts.known r (back r member)
  · intro a
    rw [count]
    exact counts.gone a

-- One more reference like one that there is.
theorem addref_counts (counts : Counts refs m) (member : r ∈ refs) :
    ∃ n, m.addref r.u = .ok n ∧ Counts (r :: refs) n ∧ n.objects = m.objects ∧ n.given = m.given := by
  have back : ∀ s ∈ r :: refs, s ∈ refs := by
    intro s inside
    rcases List.mem_cons.mp inside with rfl | old
    · exact member
    · exact old
  have gone : ∀ a, a ∈ m.objects.deleted ↔ a ∈ m.given ∧ holders (r :: refs) a = 0 := by
    intro a
    rw [counts.gone,holders_cons]
    by_cases here : r.p = some a
    · have held := holders_pos.mpr ⟨r,member,here⟩
      rw [if_pos here]
      omega
    · rw [if_neg here,Nat.add_zero]
  have same := fun s inside t inside_too => counts.same s (back s inside) t (back t inside_too)
  have one := fun s inside t inside_too => counts.one s (back s inside) t (back t inside_too)
  have known := fun s inside => counts.known s (back s inside)
  cases counter : r.u with
  | none =>
    refine ⟨m,rfl,⟨counts.objects,counts.counters,?_,fun s inside => counts.empty s (back s inside),same,one,known,counts.created,gone⟩,rfl,rfl⟩
    intro s inside a here
    have apart : r.p ≠ some a := by
      intro here
      obtain ⟨c,at_c,_⟩ := counts.counted r member a here
      rw [counter] at at_c
      cases at_c
    rw [holders_cons,if_neg apart,Nat.add_zero]
    exact counts.counted s (back s inside) a here
  | some c =>
    obtain ⟨n,cell⟩ := Option.ne_none_iff_exists'.mp (counts.empty r member c counter)
    refine ⟨{m with counters := {m.counters with cells := Heap.put m.counters.cells c (some (n+1))}},
      by rw [addref,Heap.modify_ok cell]; rfl,⟨counts.objects,counts.counters.write cell _,?_,?_,same,one,known,counts.created,gone⟩,rfl,rfl⟩
    · intro s inside a here
      obtain ⟨d,at_d,counted⟩ := counts.counted s (back s inside) a here
      refine ⟨d,at_d,?_⟩
      rw [holders_cons]
      by_cases shared : d = c
      · subst shared
        rw [if_pos ((counts.same r member s (back s inside) d counter at_d).trans here)]
        cases cell.symm.trans counted
        simp
      · have apart : r.p ≠ some a := by
          intro there
          have equal := counts.one r member s (back s inside) a there here
          rw [counter,at_d] at equal
          exact shared (Option.some.inj equal).symm
        rw [if_neg apart,Nat.add_zero]
        exact (Heap.put_other shared).trans counted
    · intro s inside d at_d
      by_cases shared : d = c
      · subst shared
        simp
      · dsimp only
        rw [Heap.put_other shared]
        exact counts.empty s (back s inside) d at_d

-- A reference that is NULL and without a counter changes nothing.
theorem null_counts (counts : Counts refs m) : Counts (⟨none,none⟩ :: refs) m := by
  have count : ∀ a, holders (⟨none,none⟩ :: refs) a = holders refs a := fun a => by simp [holders_cons]
  refine ⟨counts.objects,counts.counters,?_,?_,?_,?_,?_,counts.created,?_⟩
  · intro s inside a here
    rw [count]
    rcases List.mem_cons.mp inside with rfl | old
    · cases here
    · exact counts.counted s old a here
  · intro s inside c at_c
    rcases List.mem_cons.mp inside with rfl | old
    · cases at_c
    · exact counts.empty s old c at_c
  · intro s inside t inside_too c at_c at_c_too
    rcases List.mem_cons.mp inside with rfl | old
    · cases at_c
    · rcases List.mem_cons.mp inside_too with rfl | old_too
      · cases at_c_too
      · exact counts.same s old t old_too c at_c at_c_too
  · intro s inside t inside_too a here here_too
    rcases List.mem_cons.mp inside with rfl | old
    · cases here
    · rcases List.mem_cons.mp inside_too with rfl | old_too
      · cases here_too
      · exact counts.one s old t old_too a here here_too
  · intro s inside a here
    rcases List.mem_cons.mp inside with rfl | old
    · cases here
    · exact counts.known s old a here
  · intro a
    rw [count]
    exact counts.gone a

-- The first reference to what a raw pointer points to. Its counter is one of its own.
theorem adopt_counts (counts : Counts refs m) (ptr : Option Nat)
    (fresh : ∀ a, ptr = some a → a < m.objects.count ∧ a ∉ m.given) : Counts (m.adopted ptr :: refs) (m.adopt ptr) := by
  have unheld : ∀ a, ptr = some a → holders refs a = 0 := by
    intro a new
    refine Nat.eq_zero_of_not_pos fun positive => ?_
    obtain ⟨s,inside,here⟩ := holders_pos.mp positive
    exact (fresh a new).2 (counts.known s inside a here)
  have apart : ∀ s ∈ refs, ∀ c, s.u = some c → c ≠ m.counters.count := by
    rintro s inside c at_c rfl
    exact counts.empty s inside _ at_c counts.counters.fresh
  have kept : ∀ s ∈ refs, ∀ a, s.p = some a → ptr ≠ some a := by
    intro s inside a here new
    exact (fresh a new).2 (counts.known s inside a here)
  refine ⟨counts.objects,counts.counters.alloc 1,?_,?_,?_,?_,?_,?_,?_⟩
  · intro s inside a here
    rw [holders_cons]
    rcases List.mem_cons.mp inside with rfl | old
    · refine ⟨_,rfl,?_⟩
      rw [if_pos here,unheld a here]
      simp [adopt,Heap.alloc]
    · obtain ⟨c,at_c,counted⟩ := counts.counted s old a here
      refine ⟨c,at_c,?_⟩
      rw [if_neg (by exact kept s old a here),Nat.add_zero,← counted]
      exact Heap.put_other (apart s old c at_c)
  · intro s inside c at_c
    rcases List.mem_cons.mp inside with rfl | old
    · cases at_c
      simp [adopt,Heap.alloc]
    · have cell := counts.empty s old c at_c
      show Heap.put m.counters.cells m.counters.count (some 1) c ≠ none
      rw [Heap.put_other (apart s old c at_c)]
      exact cell
  · intro s inside t inside_too c at_c at_c_too
    rcases List.mem_cons.mp inside with rfl | old <;> rcases List.mem_cons.mp inside_too with rfl | old_too
    · rfl
    · cases at_c
      exact absurd rfl (apart t old_too _ at_c_too)
    · cases at_c_too
      exact absurd rfl (apart s old _ at_c)
    · exact counts.same s old t old_too c at_c at_c_too
  · intro s inside t inside_too a here here_too
    rcases List.mem_cons.mp inside with rfl | old <;> rcases List.mem_cons.mp inside_too with rfl | old_too
    · rfl
    · exact absurd here (kept t old_too a here_too)
    · exact absurd here_too (kept s old a here)
    · exact counts.one s old t old_too a here here_too
  · intro s inside a here
    rcases List.mem_cons.mp inside with rfl | old
    · exact List.mem_append_left _ (Option.mem_toList.mpr here)
    · exact List.mem_append_right _ (counts.known s old a here)
  · intro a member
    rcases List.mem_append.mp member with new | old
    · exact (fresh a (Option.mem_toList.mp new)).1
    · exact counts.created a old
  · intro a
    have now : (m.adopted ptr).p = some a ↔ ptr = some a := Iff.rfl
    rw [holders_cons]
    simp only [now,adopt,List.mem_append,Option.mem_toList]
    by_cases new : ptr = some a
    · have alive : a ∉ m.objects.deleted := fun deleted => (fresh a new).2 ((counts.gone a).mp deleted).1
      simp [new,alive]
    · simp [new,counts.gone]

theorem release_last (points : r.p = some a) (at_c : r.u = some c) (cell : m.counters.cells c = some n) (last : n-1 ≤ 0)
    (object : m.objects.cells a = some v) : m.release r = .ok {m with
      objects := {m.objects with cells := Heap.put m.objects.cells a none, deleted := m.objects.deleted ++ [a]},
      counters := {m.counters with
        cells := Heap.put (Heap.put m.counters.cells c (some (n-1))) c none, deleted := m.counters.deleted ++ [c]}} := by
  simp only [release,points,at_c,Heap.modify_ok cell]
  show (Heap.read _ (some c) >>= _) = _
  rw [Heap.read_ok (Heap.put_same ..)]
  show (if n-1 ≤ 0 then _ else _) = _
  rw [if_pos last,Heap.delete_ok object]
  show (Heap.delete _ (some c) >>= _) = _
  rw [Heap.delete_ok (Heap.put_same ..)]
  rfl

theorem release_other (points : r.p = some a) (at_c : r.u = some c) (cell : m.counters.cells c = some n) (others : ¬ n-1 ≤ 0) :
    m.release r = .ok {m with counters := {m.counters with cells := Heap.put m.counters.cells c (some (n-1))}} := by
  simp only [release,points,at_c,Heap.modify_ok cell]
  show (Heap.read _ (some c) >>= _) = _
  rw [Heap.read_ok (Heap.put_same ..)]
  exact if_neg others

-- Of two references that point to something, both point to the same where they have the
-- same counter, and only there.
theorem Counts.shares (counts : Counts refs m) (member : r ∈ refs) (member_too : s ∈ refs) (points : r.p = some a) (at_c : r.u = some c)
    (points_too : s.p = some b) (at_d : s.u = some d) : b = a ↔ d = c := by
  constructor
  · rintro rfl
    have equal := counts.one s member_too r member b points_too points
    rw [at_d,at_c] at equal
    exact Option.some.inj equal
  · rintro rfl
    have equal := counts.same s member_too r member d at_d at_c
    rw [points_too,points] at equal
    exact Option.some.inj equal

theorem Counts.alive (counts : Counts refs m) (member : r ∈ refs) (points : r.p = some a) : ∃ v, m.objects.cells a = some v := by
  refine Option.ne_none_iff_exists'.mp ?_
  intro missing
  rcases (counts.objects.there a).mp missing with deleted | above
  · have held := holders_pos.mpr ⟨r,member,points⟩
    have none_left := ((counts.gone a).mp deleted).2
    omega
  · exact absurd (counts.created a (counts.known r member a points)) (Nat.not_lt.mpr above)

theorem holders_first (points : r.p = some a) (refs : List Ref) (b : Nat) :
    holders (r :: refs) b = holders refs b+(if b = a then 1 else 0) := by
  rw [holders_cons,points]
  simp [eq_comm]

-- Without a reference that points nowhere.
theorem Counts.unpointed (counts : Counts (r :: refs) m) (points : r.p = none) : Counts refs m := by
  have old : ∀ s ∈ refs, s ∈ r :: refs := fun s inside => List.mem_cons_of_mem _ inside
  have count : ∀ a, holders (r :: refs) a = holders refs a := fun a => by simp [holders_cons,points]
  refine ⟨counts.objects,counts.counters,?_,fun s inside => counts.empty s (old s inside),?_,?_,?_,counts.created,?_⟩
  · intro s inside a here
    rw [← count]
    exact counts.counted s (old s inside) a here
  · exact fun s inside t inside_too => counts.same s (old s inside) t (old t inside_too)
  · exact fun s inside t inside_too => counts.one s (old s inside) t (old t inside_too)
  · exact fun s inside => counts.known s (old s inside)
  · intro a
    rw [← count]
    exact counts.gone a

-- Without the last reference to an object, which goes with its counter.
theorem Counts.last (counts : Counts (r :: refs) m) (points : r.p = some a) (at_c : r.u = some c) (cell : m.counters.cells c = some n)
    (object : m.objects.cells a = some v) (unheld : holders refs a = 0) : Counts refs {m with
      objects := {m.objects with cells := Heap.put m.objects.cells a none, deleted := m.objects.deleted ++ [a]},
      counters := {m.counters with
        cells := Heap.put (Heap.put m.counters.cells c (some (n-1))) c none, deleted := m.counters.deleted ++ [c]}} := by
  have old : ∀ s ∈ refs, s ∈ r :: refs := fun s inside => List.mem_cons_of_mem _ inside
  have first : r ∈ r :: refs := List.mem_cons_self ..
  have unshared : ∀ s ∈ refs, ∀ d, s.u = some d → d ≠ c := by
    rintro s inside d at_d rfl
    have equal := (counts.same s (old s inside) r first d at_d at_c).trans points
    have held := holders_pos.mpr ⟨s,inside,equal⟩
    omega
  refine ⟨counts.objects.delete object,(counts.counters.write cell _).delete (Heap.put_same ..),?_,?_,?_,?_,?_,counts.created,?_⟩
  · intro s inside b here
    obtain ⟨d,at_d,counted⟩ := counts.counted s (old s inside) b here
    have apart := unshared s inside d at_d
    have other : b ≠ a := fun same => apart ((counts.shares first (old s inside) points at_c here at_d).mp same)
    refine ⟨d,at_d,?_⟩
    dsimp only
    rw [Heap.put_other apart,Heap.put_other apart,counted,holders_first points,if_neg other,Nat.add_zero]
  · intro s inside d at_d
    have apart := unshared s inside d at_d
    dsimp only
    rw [Heap.put_other apart,Heap.put_other apart]
    exact counts.empty s (old s inside) d at_d
  · exact fun s inside t inside_too => counts.same s (old s inside) t (old t inside_too)
  · exact fun s inside t inside_too => counts.one s (old s inside) t (old t inside_too)
  · exact fun s inside => counts.known s (old s inside)
  · intro b
    simp only [List.mem_append,List.mem_singleton,counts.gone,holders_first points]
    by_cases same : b = a
    · subst same
      simp [unheld,counts.known r first b points]
    · simp [same]

-- Without one of several references to an object.
theorem Counts.other (counts : Counts (r :: refs) m) (points : r.p = some a) (at_c : r.u = some c) (cell : m.counters.cells c = some n)
    (count : n = holders (r :: refs) a) (held : holders refs a ≠ 0) :
    Counts refs {m with counters := {m.counters with cells := Heap.put m.counters.cells c (some (n-1))}} := by
  have old : ∀ s ∈ refs, s ∈ r :: refs := fun s inside => List.mem_cons_of_mem _ inside
  have first : r ∈ r :: refs := List.mem_cons_self ..
  have left : n-1 = (holders refs a : Int) := by
    rw [count,holders_first points,if_pos rfl]
    simp
  refine ⟨counts.objects,counts.counters.write cell _,?_,?_,?_,?_,?_,counts.created,?_⟩
  · intro s inside b here
    obtain ⟨d,at_d,counted⟩ := counts.counted s (old s inside) b here
    have shares := counts.shares first (old s inside) points at_c here at_d
    refine ⟨d,at_d,?_⟩
    dsimp only
    by_cases shared : d = c
    · obtain rfl := shares.mpr shared
      rw [shared,Heap.put_same,left]
    · rw [Heap.put_other shared,counted,holders_first points,if_neg fun same => shared (shares.mp same),Nat.add_zero]
  · intro s inside d at_d
    by_cases shared : d = c
    · subst shared
      simp
    · dsimp only
      rw [Heap.put_other shared]
      exact counts.empty s (old s inside) d at_d
  · exact fun s inside t inside_too => counts.same s (old s inside) t (old t inside_too)
  · exact fun s inside t inside_too => counts.one s (old s inside) t (old t inside_too)
  · exact fun s inside => counts.known s (old s inside)
  · intro b
    simp only [counts.gone,holders_first points]
    by_cases same : b = a
    · subst same
      simp [held]
    · simp [same]

-- The first of the references lets go. What is left holds the counter, or nothing is.
theorem release_counts (counts : Counts (r :: refs) m) : ∃ n, m.release r = .ok n ∧ Counts refs n ∧ n.given = m.given := by
  cases points : r.p with
  | none => exact ⟨m,by rw [release,points],counts.unpointed points,rfl⟩
  | some a =>
    have first : r ∈ r :: refs := List.mem_cons_self ..
    obtain ⟨c,at_c,cell⟩ := counts.counted r first a points
    obtain ⟨v,object⟩ := counts.alive first points
    have count := holders_first points refs a
    rw [if_pos rfl] at count
    by_cases unheld : holders refs a = 0
    · exact ⟨_,release_last points at_c cell (by omega) object,counts.last points at_c cell object unheld,rfl⟩
    · exact ⟨_,release_other points at_c cell (by omega),counts.other points at_c cell rfl unheld,rfl⟩

theorem alloc_counts (counts : Counts refs m) (v : τ) : Counts refs {m with objects := m.objects.alloc v} := by
  refine ⟨counts.objects.alloc v,counts.counters,counts.counted,counts.empty,counts.same,counts.one,counts.known,?_,counts.gone⟩
  exact fun a member => Nat.lt_succ_of_lt (counts.created a member)

end Shared
end PcNetwork
