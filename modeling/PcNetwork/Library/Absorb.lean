import Mathlib.Data.List.Basic

namespace PcNetwork.Absorb
variable {σ β : Type} (compress : σ → List β → σ) (size : Nat)

-- A stream is compressed block by block. What does not fill a block is left.
def absorb (s : σ) (bytes : List β) : σ × List β :=
  if 0 < size ∧ size ≤ bytes.length then absorb (compress s (bytes.take size)) (bytes.drop size) else (s,bytes)
termination_by bytes.length
decreasing_by
  rw [List.length_drop]
  omega

variable {compress size} {s : σ} {bytes more : List β}

theorem absorb_short (short : bytes.length < size) : absorb compress size s bytes = (s,bytes) := by
  rw [absorb,if_neg (by omega)]

theorem absorb_block (positive : 0 < size) (full : size ≤ bytes.length) :
    absorb compress size s bytes = absorb compress size (compress s (bytes.take size)) (bytes.drop size) := by
  rw [absorb,if_pos ⟨positive,full⟩]

-- What has been left in front of a later piece is absorbed with it.
theorem absorb_append (positive : 0 < size) (s : σ) (bytes more : List β) :
    absorb compress size s (bytes ++ more) =
      absorb compress size (absorb compress size s bytes).1 ((absorb compress size s bytes).2 ++ more) := by
  fun_induction absorb compress size s bytes with
  | case1 s bytes full ih =>
    rw [absorb_block positive (by rw [List.length_append]; omega),List.take_append_of_le_length full.2,List.drop_append_of_le_length full.2]
    exact ih
  | case2 s bytes short => rfl

theorem length_left (positive : 0 < size) (s : σ) (bytes : List β) :
    (absorb compress size s bytes).2.length = bytes.length % size := by
  fun_induction absorb compress size s bytes with
  | case1 s bytes full ih =>
    rw [ih,List.length_drop]
    exact (Nat.mod_eq_sub_mod full.2).symm
  | case2 s bytes short =>
    show bytes.length = _
    exact (Nat.mod_eq_of_lt (by omega)).symm

end PcNetwork.Absorb
