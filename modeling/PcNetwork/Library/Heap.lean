import Mathlib.Data.List.Infix

namespace PcNetwork
variable {ν : Type}

-- What a program can run into when it follows pointers: NULL, a node that was deleted, a
-- loop that comes back to where it has been and so never ends, or an assertion that fails.
inductive HeapFault where
  | null
  | deleted
  | endless
  | assertion
deriving DecidableEq, Repr

-- Nodes get the addresses 0, 1, 2, .. in the order they are allocated in, and an address
-- is never given out again. A pointer is NULL or an address.
structure Heap (ν : Type) where
  count : Nat
  cells : Nat → Option ν
  deleted : List Nat

namespace Heap

def empty : Heap ν := ⟨0,fun _ => none,[]⟩
def put (cells : Nat → Option ν) (a : Nat) (content : Option ν) : Nat → Option ν :=
  fun b => if b = a then content else cells b

-- The address of the new node is the count before.
def alloc (h : Heap ν) (v : ν) : Heap ν := {h with count := h.count+1,cells := put h.cells h.count (some v)}

def read (h : Heap ν) : Option Nat → Except HeapFault ν
  | none => .error .null
  | some a => match h.cells a with
    | some v => .ok v
    | none => .error .deleted

def modify (h : Heap ν) (p : Option Nat) (f : ν → ν) : Except HeapFault (Heap ν) :=
  match p with
  | none => .error .null
  | some a => match h.cells a with
    | some v => .ok {h with cells := put h.cells a (some (f v))}
    | none => .error .deleted

-- Deleting NULL does nothing.
def delete (h : Heap ν) (p : Option Nat) : Except HeapFault (Heap ν) :=
  match p with
  | none => .ok h
  | some a => match h.cells a with
    | some _ => .ok {h with cells := put h.cells a none,deleted := h.deleted ++ [a]}
    | none => .error .deleted

variable {h next : Heap ν} {cells : Nat → Option ν} {a b : Nat} {v : ν}

@[simp] theorem put_same (cells : Nat → Option ν) (a : Nat) (content : Option ν) : put cells a content a = content :=
  if_pos rfl

theorem put_other {content : Option ν} (apart : b ≠ a) : put cells a content b = cells b := if_neg apart

theorem put_other_than (cells : Nat → Option ν) (content : Option ν) (places : List Nat) (outside : a ∉ places) :
    ∀ b ∈ places, put cells a content b = cells b := by
  intro b member
  refine put_other ?_
  rintro rfl
  exact outside member

theorem read_ok (here : h.cells a = some v) : h.read (some a) = .ok v := by simp only [read,here]

theorem read_gone (gone : h.cells a = none) : h.read (some a) = .error .deleted := by simp only [read,gone]

theorem read_cell (ran : h.read (some a) = .ok v) : h.cells a = some v := by
  cases here : h.cells a with
  | none =>
    rw [read_gone here] at ran
    cases ran
  | some w =>
    rw [read_ok here] at ran
    cases ran
    rfl

theorem read_returned {p : Option Nat} (ran : h.read p = .ok v) : ∃ a, p = some a ∧ h.cells a = some v := by
  cases p with
  | none => cases ran
  | some a => exact ⟨a,rfl,read_cell ran⟩

theorem modify_ok (here : h.cells a = some v) (f : ν → ν) :
    h.modify (some a) f = .ok {h with cells := put h.cells a (some (f v))} := by
  simp only [modify,here]

theorem modify_gone (gone : h.cells a = none) (f : ν → ν) : h.modify (some a) f = .error .deleted := by simp only [modify,gone]

theorem modify_map (here : h.cells a = some v) (f : ν → ν) : ∃ next, h.modify (some a) f = .ok next ∧ next.count = h.count ∧
    next.deleted = h.deleted ∧ ∀ b, next.cells b = (h.cells b).map fun w => if some a = some b then f w else w := by
  refine ⟨_,modify_ok here f,rfl,rfl,fun b => ?_⟩
  by_cases same : a = b
  · subst same
    simp [here]
  · simp [put_other (Ne.symm same),same]

-- A change behind a pointer that may be NULL.
theorem modify_if {p : Option Nat} (there : ∀ a, p = some a → ∃ v, h.cells a = some v) (f : ν → ν) :
    ∃ next, (if p.isSome then h.modify p f else .ok h) = .ok next ∧ next.count = h.count ∧ next.deleted = h.deleted ∧
      ∀ b, next.cells b = (h.cells b).map fun w => if p = some b then f w else w := by
  cases p with
  | none => exact ⟨h,rfl,rfl,rfl,fun b => by simp⟩
  | some a =>
    obtain ⟨v,here⟩ := there a rfl
    exact modify_map here f

theorem delete_ok (here : h.cells a = some v) :
    h.delete (some a) = .ok {h with cells := put h.cells a none,deleted := h.deleted ++ [a]} := by
  simp only [delete,here]

theorem delete_gone (gone : h.cells a = none) : h.delete (some a) = .error .deleted := by simp only [delete,gone]

theorem delete_returned (ran : h.delete (some a) = .ok next) :
    (∃ v, h.cells a = some v) ∧ next = {h with cells := put h.cells a none,deleted := h.deleted ++ [a]} := by
  cases here : h.cells a with
  | none =>
    rw [delete_gone here] at ran
    cases ran
  | some v =>
    rw [delete_ok here] at ran
    cases ran
    exact ⟨⟨v,rfl⟩,rfl⟩

end Heap

-- A sequence that returns is a first part that returned and a second that did.
theorem sequence_returned {ε α β : Type} {p : Except ε α} {f : α → Except ε β} {b : β} (ran : (p >>= f) = .ok b) :
    ∃ a, p = .ok a ∧ f a = .ok b := by
  cases p with
  | ok a => exact ⟨a,rfl,ran⟩
  | error e => cases ran

-- One more call is made in the state that the calls before it lead to.
theorem foldlM_one_more {ε α β : Type} (f : β → α → Except ε β) (b : β) (calls : List α) (call : α) :
    (calls ++ [call]).foldlM f b = calls.foldlM f b >>= fun c => f c call := by
  rw [List.foldlM_append]
  simp only [List.foldlM_cons,List.foldlM_nil,bind_pure]

end PcNetwork
