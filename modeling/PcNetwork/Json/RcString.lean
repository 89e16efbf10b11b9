import Mathlib.Algebra.GroupWithZero.Nat
import PcNetwork.Library.Cells
import PcNetwork.Json.Value

namespace PcNetwork.Json
open Cells

-- An rcstring: the block of its text, and how much of it is usable, the NUL not counted.
structure RcString where
  text : List (Option Char)
  max : Nat

def nul : Char := '\x00'

-- A sum as a size_t of so many bits.
def sizeT (bits n : Nat) : Nat := n % 2^bits

namespace RcString
section
variable (bits : Nat)

def create (length : Nat) : RcString := ⟨List.replicate (sizeT bits (length+1)) (some nul),length⟩

def resize (rcs : RcString) (length : Nat) : Option RcString := do
  let text ← store (realloc rcs.text (sizeT bits (length+1))) length nul
  return ⟨text,length⟩

def catcs (pre : RcString) (pos : List Char) (length : Nat) : Option RcString := do
  let preLength ← strlen nul pre.text
  let pre ← (if pre.max < sizeT bits (preLength+length) then pre.resize bits (sizeT bits (preLength+length+5)) else some pre)
  let text ← strncpy nul pre.text preLength pos length
  let text ← store text (sizeT bits (preLength+length)) nul
  return {pre with text}

def catc (pre : RcString) (c : Char) : Option RcString := do
  let preLength ← strlen nul pre.text
  let pre ← (if pre.max ≤ preLength then pre.resize bits (sizeT bits (pre.max+3)) else some pre)
  let text ← store pre.text preLength c
  let text ← store text (sizeT bits (preLength+1)) nul
  return {pre with text}

def unwrap (rcs : RcString) : Option (List (Option Char)) := do
  let length ← strlen nul rcs.text
  return realloc rcs.text (sizeT bits (length+1))

end

def length (rcs : RcString) : Option Nat := strlen nul rcs.text

inductive Append where
  | catcs (pos : List Char) (length : Nat)
  | catc (c : Char)

def append (bits : Nat) (rcs : RcString) : Append → Option RcString
  | .catcs pos length => rcs.catcs bits pos length
  | .catc c => rcs.catc bits c

-- What comes to the text.
def Append.written : Append → Text
  | .catcs pos length => (front nul pos).take length
  | .catc c => front nul [c]

-- How much room is asked for.
def Append.asks : Append → Nat
  | .catcs _ length => length
  | .catc _ => 1

-- The block is as large as the string says, and spells the text.
structure Holds (rcs : RcString) (s : Text) : Prop where
  spells : Spells nul rcs.text s
  size : rcs.text.length = rcs.max+1

variable {bits : Nat} {rcs r : RcString} {s : Text} {n : Nat}

theorem sizeT_of_lt (small : n < 2^bits) : sizeT bits n = n := Nat.mod_eq_of_lt small

theorem create_holds {length : Nat} (small : length+1 < 2^bits) : (create bits length).Holds [] := by
  rw [create,sizeT_of_lt small]
  exact ⟨⟨List.not_mem_nil,List.replicate length (some nul),rfl⟩,List.length_replicate⟩

theorem Holds.resize (holds : rcs.Holds s) (more : rcs.max < n) (small : n+1 < 2^bits) :
    ∃ r, rcs.resize bits n = some r ∧ r.max = n ∧ r.Holds s := by
  have shorter := holds.spells.shorter
  have size := holds.size
  have grown := holds.spells.realloc (n := n+1) (by omega)
  obtain ⟨text,stored,length,spells⟩ := grown.store (i := n) (by omega) (by rw [length_realloc]; omega) nul
  refine ⟨⟨text,n⟩,?_,rfl,spells,length.trans (length_realloc ..)⟩
  rw [RcString.resize,sizeT_of_lt small,stored]
  rfl

-- There is room when the text has been moved to a larger block or needs none.
theorem Holds.widened {grows : Prop} [Decidable grows] {need : Nat} (holds : rcs.Holds s)
    (larger : grows → rcs.max < n ∧ need ≤ n ∧ n+1 < 2^bits) (enough : ¬grows → need ≤ rcs.max) :
    ∃ wide, (if grows then rcs.resize bits n else some rcs) = some wide ∧ wide.Holds s ∧ need < wide.text.length := by
  by_cases grow : grows
  · obtain ⟨more,wanted,small⟩ := larger grow
    obtain ⟨wide,ran,max,held⟩ := holds.resize more small
    refine ⟨wide,by rw [if_pos grow,ran],held,?_⟩
    rw [held.size,max]
    exact Nat.lt_succ_of_le wanted
  · refine ⟨rcs,if_neg grow,holds,?_⟩
    rw [holds.size]
    exact Nat.lt_succ_of_le (enough grow)

theorem Holds.catc (holds : rcs.Holds s) (c : Char) (small : s.length+4 < 2^bits) :
    ∃ r, rcs.catc bits c = some r ∧ r.Holds (s ++ front nul [c]) := by
  have shorter := holds.spells.shorter
  have size := holds.size
  have grown (grow : rcs.max ≤ s.length) : sizeT bits (rcs.max+3) = rcs.max+3 := sizeT_of_lt (by omega)
  have larger (grow : rcs.max ≤ s.length) :
      rcs.max < sizeT bits (rcs.max+3) ∧ s.length+1 ≤ sizeT bits (rcs.max+3) ∧ sizeT bits (rcs.max+3)+1 < 2^bits := by
    rw [grown grow]
    omega
  obtain ⟨wide,ran,held,room⟩ := holds.widened larger fun stays => Nat.lt_of_not_le stays
  obtain ⟨next,last,first,second,length,spells⟩ := held.spells.push room c
  refine ⟨{wide with text := last},?_,spells,length.trans held.size⟩
  have behind : sizeT bits (s.length+1) = s.length+1 := sizeT_of_lt (by omega)
  simp only [RcString.catc,holds.spells.strlen,behind,ran,first,second,bind,Option.bind]
  rfl

theorem Holds.catcs (holds : rcs.Holds s) (pos : List Char) (length : Nat) (small : s.length+length+6 < 2^bits) :
    ∃ r, rcs.catcs bits pos length = some r ∧ r.Holds (s ++ (front nul pos).take length) := by
  have sum : sizeT bits (s.length+length) = s.length+length := sizeT_of_lt (by omega)
  have wide : sizeT bits (s.length+length+5) = s.length+length+5 := sizeT_of_lt (by omega)
  have larger (grow : rcs.max < s.length+length) :
      rcs.max < s.length+length+5 ∧ s.length+length ≤ s.length+length+5 ∧ s.length+length+5+1 < 2^bits := by omega
  obtain ⟨wide,ran,held,room⟩ := holds.widened larger fun stays => Nat.le_of_not_lt stays
  obtain ⟨next,last,first,second,length,spells⟩ := held.spells.copy room pos
  refine ⟨{wide with text := last},?_,spells,length.trans held.size⟩
  simp only [RcString.catcs,holds.spells.strlen,sum,‹sizeT bits (_+5) = _›,ran,first,second,bind,Option.bind]
  rfl

theorem Holds.append (holds : rcs.Holds s) (a : Append) (small : s.length+a.asks+6 < 2^bits) :
    ∃ r, rcs.append bits a = some r ∧ r.Holds (s ++ a.written) := by
  cases a with
  | catcs pos length => exact holds.catcs pos length small
  | catc c =>
    simp only [Append.asks] at small
    exact holds.catc c (by omega)

theorem written_asked (a : Append) : a.written.length ≤ a.asks := by
  cases a with
  | catcs pos length => exact List.length_take_le ..
  | catc c => exact (List.takeWhile_sublist _).length_le

theorem written_asked_all (appends : List Append) : (appends.flatMap Append.written).length ≤ (appends.map Append.asks).sum := by
  induction appends with
  | nil => exact Nat.zero_le _
  | cons a appends ih =>
    rw [List.flatMap_cons,List.length_append,List.map_cons,List.sum_cons]
    exact Nat.add_le_add (written_asked a) ih

theorem Holds.appends (holds : rcs.Holds s) (appends : List Append) (small : s.length+(appends.map Append.asks).sum+6 < 2^bits) :
    ∃ r, appends.foldlM (RcString.append bits) rcs = some r ∧ r.Holds (s ++ appends.flatMap Append.written) := by
  induction appends generalizing rcs s with
  | nil => exact ⟨rcs,rfl,by simpa using holds⟩
  | cons a appends ih =>
    have asked := written_asked a
    rw [List.map_cons,List.sum_cons] at small
    obtain ⟨next,ran,held⟩ := Holds.append holds a (show s.length+a.asks+6 < 2^bits by omega)
    obtain ⟨r,ran',held'⟩ := ih held (by rw [List.length_append]; omega)
    refine ⟨r,?_,?_⟩
    · simp only [List.foldlM_cons,ran,bind,Option.bind]
      exact ran'
    · rwa [List.flatMap_cons,← List.append_assoc]

theorem Holds.unwrap (holds : rcs.Holds s) (small : s.length+1 < 2^bits) : rcs.unwrap bits = some ((s ++ [nul]).map some) := by
  rw [RcString.unwrap,holds.spells.strlen]
  simp only [bind,Option.bind,sizeT_of_lt small]
  exact congrArg some holds.spells.shrink

-- Whatever is appended in whatever order, as long as all that is asked for is a size_t, no
-- byte outside the block is touched and none is read that was not written; the text is what
-- was appended, and the block that is handed out holds it and its NUL only.
theorem appends_written {length : Nat} (appends : List Append) (first : length+1 < 2^bits)
    (small : (appends.map Append.asks).sum+6 < 2^bits) : ∃ r, appends.foldlM (append bits) (create bits length) = some r ∧
    r.length = some (appends.flatMap Append.written).length ∧
    r.unwrap bits = some ((appends.flatMap Append.written ++ [nul]).map some) := by
  obtain ⟨r,ran,holds⟩ := (create_holds first).appends appends (by rw [List.length_nil,Nat.zero_add]; exact small)
  have asked := written_asked_all appends
  exact ⟨r,ran,holds.spells.strlen,holds.unwrap (by rw [List.nil_append]; omega)⟩

-- The block grows twice.
theorem appends_written_two : ∃ r, [Append.catcs ['a','b',nul] 5,.catc 'c',.catcs ['d','e'] 2].foldlM (append 32) (create 32 1) = some r ∧
    r.length = some 5 ∧ r.unwrap 32 = some [some 'a',some 'b',some 'c',some 'd',some 'e',some nul] :=
  appends_written [.catcs ['a','b',nul] 5,.catc 'c',.catcs ['d','e'] 2] (by decide) (by decide)

end RcString
end PcNetwork.Json
