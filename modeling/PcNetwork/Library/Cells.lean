import Mathlib.Data.List.TakeWhile

namespace PcNetwork
variable {α : Type} {nul c : α} {cells : List (Option α)} {s : List α} {n i : Nat}

-- A block of memory is the list of its cells, of which those that nothing has been stored
-- in hold nothing one may read. A string in it ends at the first NUL.
namespace Cells

def store (cells : List (Option α)) (i : Nat) (c : α) : Option (List (Option α)) :=
  if i < cells.length then some (cells.set i (some c)) else none

def realloc (cells : List (Option α)) (n : Nat) : List (Option α) := cells.take n ++ List.replicate (n-cells.length) none

-- The block holds a string.
def Spells (nul : α) (cells : List (Option α)) (s : List α) : Prop := nul ∉ s ∧ ∃ rest, cells = s.map some ++ some nul :: rest

theorem Spells.shorter (spells : Spells nul cells s) : s.length < cells.length := by
  obtain ⟨-,rest,rfl⟩ := spells
  simp

theorem length_realloc (cells : List (Option α)) (n : Nat) : (realloc cells n).length = n := by
  rw [realloc,List.length_append,List.length_take,List.length_replicate]
  omega

theorem Spells.realloc (spells : Spells nul cells s) (enough : s.length < n) : Spells nul (realloc cells n) s := by
  obtain ⟨clean,rest,rfl⟩ := spells
  refine ⟨clean,rest.take (n-s.length-1) ++ List.replicate (n-(s.map some ++ some nul :: rest).length) none,?_⟩
  have cut : (s.map some).length ≤ n := by simpa using Nat.le_of_lt enough
  obtain ⟨k,rfl⟩ := Nat.exists_eq_add_of_lt enough
  rw [Cells.realloc,List.take_append,List.take_of_length_le cut,List.length_map,List.append_assoc]
  simp [Nat.add_assoc]

-- The string and its NUL are left.
theorem Spells.shrink (spells : Spells nul cells s) : Cells.realloc cells (s.length+1) = (s ++ [nul]).map some := by
  obtain ⟨-,rest,rfl⟩ := spells
  have split : s.map some ++ some nul :: rest = (s ++ [nul]).map some ++ rest := by simp
  have size : ((s ++ [nul]).map some).length = s.length+1 := by simp
  rw [Cells.realloc,split,List.take_left' size,List.length_append,size,Nat.sub_eq_zero_of_le (Nat.le_add_right ..),List.replicate_zero,
    List.append_nil]

-- What is stored behind the NUL does not matter.
theorem Spells.store (spells : Spells nul cells s) (behind : s.length < i) (inside : i < cells.length) (c : α) :
    ∃ next, store cells i c = some next ∧ next.length = cells.length ∧ Spells nul next s := by
  obtain ⟨clean,rest,rfl⟩ := spells
  obtain ⟨k,rfl⟩ := Nat.exists_eq_add_of_lt behind
  refine ⟨_,if_pos inside,List.length_set,clean,rest.set k (some c),?_⟩
  rw [List.set_append_right _ _ (by simp; omega),List.length_map]
  simp [Nat.add_assoc]

variable [DecidableEq α]

-- The characters in front of the first NUL.
def front (nul : α) (s : List α) : List α := s.takeWhile (· ≠ nul)

-- No length when the block ends, or a cell holds nothing, before there is a NUL.
def strlen (nul : α) : List (Option α) → Option Nat
  | some c :: cells => if c = nul then some 0 else (strlen nul cells).map (· + 1)
  | _ => none

-- What the source has is filled up with NULs, and cut off without one.
def strncpy (nul : α) (cells : List (Option α)) (i : Nat) (source : List α) (n : Nat) : Option (List (Option α)) :=
  let copied := (front nul source).take n
  if i+n ≤ cells.length then some (cells.take i ++ (copied ++ List.replicate (n-copied.length) nul).map some ++ cells.drop (i+n))
  else none

theorem front_clean (s : List α) : nul ∉ front nul s := by
  intro member
  simpa using List.mem_takeWhile_imp member

theorem front_same (clean : nul ∉ s) : front nul s = s := by
  refine List.takeWhile_eq_self_iff.mpr fun c member => ?_
  simpa using fun same : c = nul => clean (same ▸ member)

theorem Spells.strlen (spells : Spells nul cells s) : strlen nul cells = some s.length := by
  obtain ⟨clean,rest,rfl⟩ := spells
  induction s with
  | nil => simp [Cells.strlen]
  | cons c s ih =>
    obtain ⟨other,clean⟩ := List.ne_and_not_mem_of_not_mem_cons clean
    rw [List.map_cons,List.cons_append,Cells.strlen,if_neg (Ne.symm other),ih clean]
    rfl

-- A character comes in the place of the NUL, and a NUL behind it.
theorem Spells.push (spells : Spells nul cells s) (room : s.length+1 < cells.length) (c : α) :
    ∃ next last, Cells.store cells s.length c = some next ∧ Cells.store next (s.length+1) nul = some last ∧
      last.length = cells.length ∧ Spells nul last (s ++ front nul [c]) := by
  obtain ⟨clean,rest,rfl⟩ := spells
  cases rest with
  | nil => simp at room
  | cons old rest =>
    have first : Cells.store (s.map some ++ some nul :: old :: rest) s.length c = some (s.map some ++ some c :: old :: rest) := by
      simp [Cells.store,List.set_append_right]
    have second : Cells.store (s.map some ++ some c :: old :: rest) (s.length+1) nul = some (s.map some ++ some c :: some nul :: rest) := by
      simp [Cells.store,List.set_append_right]
    refine ⟨_,_,first,second,by simp,?_⟩
    by_cases ending : c = nul
    · subst ending
      rw [show front c [c] = [] by simp [front],List.append_nil]
      exact ⟨clean,some c :: rest,rfl⟩
    · refine ⟨by simp [front,ending,clean,Ne.symm ending],rest,by simp [front,ending]⟩

-- A string comes in the place of the NUL, and a NUL behind it.
theorem Spells.copy (spells : Spells nul cells s) (room : s.length+n < cells.length) (source : List α) :
    ∃ next last, Cells.strncpy nul cells s.length source n = some next ∧ Cells.store next (s.length+n) nul = some last ∧
      last.length = cells.length ∧ Spells nul last (s ++ (front nul source).take n) := by
  obtain ⟨clean,rest,rfl⟩ := spells
  generalize taken : (front nul source).take n = copied
  have few : copied.length ≤ n := taken ▸ List.length_take_le n _
  have copiedClean : nul ∉ copied := fun member => front_clean source (List.mem_of_mem_take (taken ▸ member))
  generalize filling : List.replicate (n-copied.length) nul = filler
  have size : (copied ++ filler).length = n := by
    rw [← filling,List.length_append,List.length_replicate]
    omega
  obtain ⟨old,more,split⟩ : ∃ old more, (some nul :: rest).drop n = old :: more := by
    refine List.exists_cons_of_ne_nil fun empty => ?_
    rw [List.drop_eq_nil_iff] at empty
    rw [List.length_append,List.length_map] at room
    omega
  have first : Cells.strncpy nul (s.map some ++ some nul :: rest) s.length source n =
      some (s.map some ++ (copied ++ filler).map some ++ old :: more) := by
    rw [Cells.strncpy,if_pos (Nat.le_of_lt room)]
    simp only [taken,filling]
    rw [List.take_left' (List.length_map ..),← List.drop_drop,List.drop_left' (List.length_map ..),split]
  have place : (s.map some ++ (copied ++ filler).map some).length = s.length+n := by
    rw [List.length_append,List.length_map,List.length_map,size]
  have second : Cells.store (s.map some ++ (copied ++ filler).map some ++ old :: more) (s.length+n) nul =
      some (s.map some ++ (copied ++ filler).map some ++ some nul :: more) := by
    rw [← place]
    simp [Cells.store]
  have whole : (s.map some ++ some nul :: rest).length = s.length+n+(more.length+1) := by
    have tail := congrArg List.length split
    rw [List.length_drop,List.length_cons] at tail
    rw [List.length_append,List.length_map] at room ⊢
    rw [List.length_cons] at tail room ⊢
    omega
  refine ⟨_,_,first,second,?_,?_,?_⟩
  · rw [List.length_append,place,whole,List.length_cons]
  · simp [clean,copiedClean]
  · cases filler with
    | nil => exact ⟨more,by simp⟩
    | cons x filler =>
      have same : x = nul := List.eq_of_mem_replicate (filling ▸ List.mem_cons_self)
      exact ⟨filler.map some ++ some nul :: more,by simp [same]⟩

end Cells
end PcNetwork
