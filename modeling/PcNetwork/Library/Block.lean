import Mathlib.Data.List.Infix
import Mathlib.Data.Nat.ModEq

namespace PcNetwork.Block
variable {α : Type}

-- A block of memory is the list of its cells. Reading and copying are stated
-- for every offset; the bounds are hypotheses of the laws, not of the operations.
def slice (b : List α) (off n : Nat) : List α := (b.drop off).take n

def patch (b : List α) (off : Nat) (bs : List α) : List α :=
  b.take off ++ bs ++ b.drop (off+bs.length)

@[simp] theorem slice_zero (b : List α) (off : Nat) : slice b off 0 = [] := by simp [slice]

theorem length_slice {b : List α} (fits : off+n ≤ b.length) : (slice b off n).length = n := by
  simp [slice]; omega

theorem length_slice_le (b : List α) (off n : Nat) : (slice b off n).length ≤ n := by
  simp [slice]

theorem length_patch {b bs : List α} (fits : off+bs.length ≤ b.length) :
    (patch b off bs).length = b.length := by
  simp [patch]; omega

theorem slice_add (b : List α) (off m n : Nat) :
    slice b off (m+n) = slice b off m ++ slice b (off+m) n := by
  simp only [slice,List.take_add,List.drop_drop]

theorem take_slice (b : List α) (off n k : Nat) (short : k ≤ n) :
    (slice b off n).take k = slice b off k := by
  simp only [slice,List.take_take,Nat.min_eq_left short]

theorem drop_slice (b : List α) (off n k : Nat) :
    (slice b off n).drop k = slice b (off+k) (n-k) := by
  simp only [slice,List.drop_take,List.drop_drop]

theorem slice_middle (before bs after : List α) : slice (before ++ (bs ++ after)) before.length bs.length = bs := by
  rw [slice,List.drop_left' rfl,List.take_left' rfl]

theorem slice_patch_same {b bs : List α} (fits : off+bs.length ≤ b.length) :
    slice (patch b off bs) off bs.length = bs := by
  have start : (b.take off).length = off := by simp; omega
  simp only [slice,patch,List.append_assoc]
  rw [List.drop_left' start,List.take_left' rfl]

theorem slice_patch_before {b bs : List α} (fits : off ≤ b.length) (before : i+n ≤ off) :
    slice (patch b off bs) i n = slice b i n := by
  have start : (b.take off).length = off := by simp; omega
  simp only [slice,patch,List.append_assoc]
  rw [List.drop_append_of_le_length (by omega),List.take_append_of_le_length (by simp; omega),
    List.drop_take,List.take_take,Nat.min_eq_left (by omega)]

theorem slice_patch_behind {b bs : List α} (fits : off ≤ b.length) (behind : off+bs.length ≤ i) :
    slice (patch b off bs) i n = slice b i n := by
  have start : (b.take off ++ bs).length = off+bs.length := by simp; omega
  simp only [slice,patch]
  rw [List.drop_append,List.drop_eq_nil_of_le (by omega),List.nil_append,start,List.drop_drop,Nat.add_sub_cancel' behind]

-- Appending behind what a slice already holds.
theorem slice_patch_extend {b bs : List α} (fits : off+n+bs.length ≤ b.length) :
    slice (patch b (off+n) bs) off (n+bs.length) = slice b off n ++ bs := by
  rw [slice_add,slice_patch_before (by omega) (Nat.le_refl _),slice_patch_same fits]

-- Single cells of a block that was written to.
theorem getD_patch_before {b bs : List α} {x : α} (fits : off ≤ b.length) (before : i < off) :
    (patch b off bs).getD i x = b.getD i x := by
  have start : (b.take off).length = off := by simp; omega
  simp only [patch,List.append_assoc,List.getD_eq_getElem?_getD]
  rw [List.getElem?_append_left (by omega),List.getElem?_take_of_lt before]

theorem getD_patch_at {b bs : List α} {x : α} (fits : off ≤ b.length) (inside : i < bs.length) :
    (patch b off bs).getD (off+i) x = bs.getD i x := by
  have start : (b.take off).length = off := by simp; omega
  simp only [patch,List.append_assoc,List.getD_eq_getElem?_getD]
  rw [List.getElem?_append_right (by omega),start,Nat.add_sub_cancel_left,List.getElem?_append_left inside]

theorem getD_patch_behind {b bs : List α} {x : α} (fits : off ≤ b.length) (behind : off+bs.length ≤ i) :
    (patch b off bs).getD i x = b.getD i x := by
  have start : (b.take off ++ bs).length = off+bs.length := by simp; omega
  simp only [patch,List.getD_eq_getElem?_getD]
  rw [List.getElem?_append_right (by omega),start,List.getElem?_drop,Nat.add_sub_cancel' behind]

theorem getD_slice {b : List α} {x : α} (inside : i < n) : (slice b off n).getD i x = b.getD (off+i) x := by
  simp only [slice,List.getD_eq_getElem?_getD]
  rw [List.getElem?_take_of_lt inside,List.getElem?_drop]

theorem le_length_patch (b : List α) (off : Nat) (bs : List α) : b.length ≤ (patch b off bs).length := by
  simp [patch]
  omega

-- What is read up to a cell that stops it lies in front of that cell.
theorem takeWhile_take {q : α → Bool} {list : List α} {x : α} {i n : Nat} (found : list[i]? = some x)
    (stop : q x = false) (before : i < n) : (list.take n).takeWhile q = list.takeWhile q := by
  induction list generalizing i n with
  | nil => simp
  | cons y rest ih =>
    cases n with
    | zero => simp at before
    | succ n =>
      cases i with
      | zero =>
        cases Option.some.inj found
        simp [stop]
      | succ i =>
        have later := ih (by simpa using found) (Nat.lt_of_succ_lt_succ before)
        simp only [List.take_succ_cons,List.takeWhile_cons,later]

-- Reading `len` cells from `beg` on, going round at the end of the block.
variable [Inhabited α]

def ring (b : List α) (beg len : Nat) : List α :=
  (List.range len).map fun i => b.getD ((beg+i) % b.length) default

@[simp] theorem ring_zero (b : List α) (beg : Nat) : ring b beg 0 = [] := rfl

@[simp] theorem length_ring (b : List α) (beg len : Nat) : (ring b beg len).length = len := by
  simp [ring]

theorem ring_add (b : List α) (beg m n : Nat) :
    ring b beg (m+n) = ring b beg m ++ ring b ((beg+m) % b.length) n := by
  simp only [ring,List.range_add,List.map_append,List.map_map]
  congr 1
  apply List.map_congr_left
  intro i _
  simp only [Function.comp,Nat.mod_add_mod,Nat.add_assoc]

theorem ring_take (b : List α) (beg : Nat) (short : k ≤ len) :
    (ring b beg len).take k = ring b beg k := by
  obtain ⟨rest,rfl⟩ := Nat.exists_eq_add_of_le short
  rw [ring_add,List.take_left' (length_ring _ _ _)]

theorem ring_drop (b : List α) (beg : Nat) (short : k ≤ len) :
    (ring b beg len).drop k = ring b ((beg+k) % b.length) (len-k) := by
  obtain ⟨rest,rfl⟩ := Nat.exists_eq_add_of_le short
  rw [ring_add,List.drop_left' (length_ring _ _ _),Nat.add_sub_cancel_left]

-- A stretch that does not go round is a plain slice.
theorem ring_straight {b : List α} (fits : beg+len ≤ b.length) : ring b beg len = slice b beg len := by
  apply List.ext_getElem
  · rw [length_ring,length_slice fits]
  · intro i inside _
    have bound : i < len := by simpa using inside
    have small : beg+i < b.length := by omega
    simp [ring,slice,Nat.mod_eq_of_lt small,small]

-- A stretch that goes round is the end of the block and then its beginning.
theorem ring_wrapped {b : List α} (within : beg < b.length) (beyond : b.length ≤ beg+len)
    (once : len ≤ b.length) :
    ring b beg len = slice b beg (b.length-beg) ++ slice b 0 (len-(b.length-beg)) := by
  have split : len = (b.length-beg)+(len-(b.length-beg)) := by omega
  have turn : (beg+(b.length-beg)) % b.length = 0 := by
    rw [Nat.add_sub_cancel' (Nat.le_of_lt within),Nat.mod_self]
  conv => lhs; rw [split]
  rw [ring_add,turn,ring_straight (by omega),ring_straight (by omega)]

-- Writing one cell right behind a stretch that leaves room makes it one longer.
theorem ring_push {b : List α} (room : len < b.length) (x : α) :
    ring (b.set ((beg+len) % b.length) x) beg (len+1) = ring b beg len ++ [x] := by
  have inside : (beg+len) % b.length < b.length := Nat.mod_lt _ (by omega)
  simp only [ring,List.length_set,List.range_succ,List.map_append,List.map_cons,List.map_nil]
  congr 1
  · apply List.map_congr_left
    intro i member
    have early : i < len := List.mem_range.mp member
    have apart : (beg+len) % b.length ≠ (beg+i) % b.length := by
      intro same
      have gap : (len-i) % b.length = 0 := by
        have congruent : (beg+i+(len-i)) % b.length = (beg+i) % b.length := by
          rw [show beg+i+(len-i) = beg+len by omega]; exact same
        exact (Nat.ModEq.add_left_cancel' (beg+i) (show beg+i+(len-i) ≡ beg+i+0 [MOD b.length] from congruent))
      rw [Nat.mod_eq_of_lt (by omega)] at gap
      omega
    simp only [List.getD_eq_getElem?_getD,List.getElem?_set_ne apart]
  · simp [List.getD_eq_getElem?_getD,List.getElem?_set_self inside]

end PcNetwork.Block
