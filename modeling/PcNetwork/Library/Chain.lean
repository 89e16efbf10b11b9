import Mathlib.Data.List.Nodup

namespace PcNetwork

-- A chain from a pointer along one link of every node to NULL. Where there is no node
-- there is no link either.
inductive Chain (link : Nat → Option (Option Nat)) : Option Nat → List Nat → Prop where
  | nil : Chain link none []
  | cons : link a = some next → Chain link next places → Chain link (some a) (a :: places)

namespace Chain

variable {link after : Nat → Option (Option Nat)} {p : Option Nat} {places more : List Nat} {a : Nat}

theorem unique (first : Chain link p places) (second : Chain link p more) : places = more := by
  induction first generalizing more with
  | nil =>
    cases second
    rfl
  | cons here _ ih =>
    cases second with
    | cons there rest =>
      cases Option.some.inj (here.symm.trans there)
      rw [ih rest]

theorem rest (chain : Chain link p (more ++ a :: places)) : Chain link (some a) (a :: places) := by
  induction more generalizing p with
  | nil =>
    cases chain with
    | cons here below => exact .cons here below
  | cons b more ih =>
    cases chain with
    | cons _ below => exact ih below

-- A chain that ends does not come back to a node.
theorem nodup (chain : Chain link p places) : places.Nodup := by
  induction chain with
  | nil => exact .nil
  | @cons a next places here below ih =>
    refine List.nodup_cons.mpr ⟨?_,ih⟩
    intro member
    obtain ⟨earlier,later,rfl⟩ := List.append_of_mem member
    have again := unique below.rest (.cons here below)
    have lengths := congrArg List.length again
    simp at lengths
    omega

theorem frame (chain : Chain link p places) (same : ∀ a ∈ places, after a = link a) : Chain after p places := by
  induction chain with
  | nil => exact .nil
  | cons here _ ih =>
    obtain ⟨head,tail⟩ := List.forall_mem_cons.mp same
    exact .cons (head.trans here) (ih tail)

end Chain
end PcNetwork
