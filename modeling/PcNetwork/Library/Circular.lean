import Mathlib.Data.List.Rotate

namespace PcNetwork
variable {α : Type} {u v z l k : List α} {a : α}

-- What comes out of a ring in which u has been put once is u again and again: the part
-- that is in the ring is u, cut somewhere.
theorem rotated_of_append (same : u ++ z = z ++ v) : u.IsRotated v := by
  induction size : z.length using Nat.strongRecOn generalizing z with
  | ind n ih =>
    by_cases none : u = []
    · rw [none,List.nil_append] at same
      have empty : v = [] := List.self_eq_append_right.mp same
      rw [none,empty]
    · rcases List.append_eq_append_iff.mp same with ⟨more,parts,rest⟩ | ⟨more,parts,rest⟩
      · rw [parts] at rest
        have shorter : more.length < n := by
          have some := List.length_pos_of_ne_nil none
          have whole := congrArg List.length parts
          rw [List.length_append] at whole
          omega
        exact ih more.length shorter rest rfl
      · rw [parts,rest]
        exact List.isRotated_append

-- A list that is the front of itself behind an element has no other elements.
theorem replicate_of_prefix (part : l <+: a :: l) : l = List.replicate l.length a := by
  induction l with
  | nil => rfl
  | cons b l ih =>
    obtain ⟨same,rest⟩ := List.cons_prefix_cons.mp part
    subst same
    rw [List.length_cons,List.replicate_succ,← ih rest]

-- A lap behind or not.
theorem replicate_of_sandwich (behind : l <+: k) (ahead : k <+: a :: l) :
    ∃ n, l = List.replicate n a ∧ (k = List.replicate n a ∨ k = List.replicate (n+1) a) := by
  have lap := replicate_of_prefix (behind.trans ahead)
  refine ⟨l.length,lap,?_⟩
  have least := behind.length_le
  have most := ahead.length_le
  rw [List.length_cons] at most
  rcases Nat.lt_or_ge l.length k.length with more | same
  · refine .inr ((ahead.eq_of_length ?_).trans ?_)
    · rw [List.length_cons]
      omega
    · rw [List.replicate_succ,← lap]
  · exact .inl ((behind.eq_of_length (by omega)).symm.trans lap)

end PcNetwork
