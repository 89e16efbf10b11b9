import Mathlib.Data.Tree.Basic
import Mathlib.Data.List.Infix
import Mathlib.Data.List.Perm.Basic

namespace PcNetwork.SearchTree
variable {α : Type} (go : α → α → Bool)

-- Binary trees searched from the root: of two nodes, the upper one says by go whether
-- the lower one belongs to its left.
def members : BinaryTree α → List α
  | .nil => []
  | .node x l r => x :: (members l ++ members r)

def Ordered : BinaryTree α → Prop
  | .nil => True
  | .node x l r => (∀ y ∈ members l, go x y = true) ∧ (∀ y ∈ members r, go x y = false) ∧ Ordered l ∧ Ordered r

def insert (x : α) : BinaryTree α → BinaryTree α
  | .nil => .node x .nil .nil
  | .node y l r => if go y x then .node y (insert x l) r else .node y l (insert x r)

def build (xs : List α) : BinaryTree α := xs.foldl (fun t x => insert go x t) .nil

-- A search asks at every node whether it is the one looked for, and then on which
-- side to go on.
def search (hit left : α → Bool) : BinaryTree α → Option α
  | .nil => none
  | .node x l r => if hit x then some x else if left x then search hit left l else search hit left r

-- A node of a tree with all that hangs below it.
inductive Subtree : BinaryTree α → BinaryTree α → Prop where
  | all : Subtree t t
  | left : Subtree s l → Subtree s (.node x l r)
  | right : Subtree s r → Subtree s (.node x l r)

variable {go} {hit left : α → Bool} {t : BinaryTree α}

theorem members_insert (x : α) (t : BinaryTree α) : (members (insert go x t)).Perm (x :: members t) := by
  induction t with
  | nil => exact .refl _
  | node y l r ihl ihr =>
    unfold insert
    split
    · have below := (ihl.append_right (members r)).cons y
      exact below.trans (.swap x y _)
    · have below := ((ihr.append_left (members l)).trans List.perm_middle).cons y
      exact below.trans (.swap x y _)

theorem ordered_insert (x : α) (ordered : Ordered go t) : Ordered go (insert go x t) := by
  induction t with
  | nil => exact ⟨List.forall_mem_nil _,List.forall_mem_nil _,trivial,trivial⟩
  | node y l r ihl ihr =>
    obtain ⟨lefts,rights,hl,hr⟩ := ordered
    unfold insert
    split
    · rename_i before
      refine ⟨?_,rights,ihl hl,hr⟩
      intro z member
      rcases List.mem_cons.mp ((members_insert x l).mem_iff.mp member) with rfl | old
      · exact before
      · exact lefts z old
    · rename_i behind
      refine ⟨lefts,?_,hl,ihr hr⟩
      intro z member
      rcases List.mem_cons.mp ((members_insert x r).mem_iff.mp member) with rfl | old
      · exact Bool.eq_false_iff.mpr behind
      · exact rights z old

theorem build_append (xs : List α) (x : α) : build go (xs ++ [x]) = insert go x (build go xs) := by
  simp only [build,List.foldl_append,List.foldl_cons,List.foldl_nil]

theorem members_build (xs : List α) : (members (build go xs)).Perm xs := by
  induction xs using List.reverseRecOn with
  | nil => exact .refl _
  | append_singleton xs x ih =>
    rw [build_append]
    have added : (members (insert go x (build go xs))).Perm (x :: xs) := (members_insert x _).trans (ih.cons x)
    exact added.trans (List.perm_append_singleton x xs).symm

theorem ordered_build (xs : List α) : Ordered go (build go xs) := by
  induction xs using List.reverseRecOn with
  | nil => trivial
  | append_singleton xs x ih =>
    rw [build_append]
    exact ordered_insert x ih

-- A search that goes the way a node it would hit was inserted finds that node, unless
-- it hits another one on its way.
theorem search_insert {x : α} (agrees : hit x = true → ∀ y, hit y = false → go y x = left y) (t : BinaryTree α) :
    search hit left (insert go x t) = (search hit left t).or (if hit x then some x else none) := by
  induction t with
  | nil =>
    show (if hit x then some x else if left x then none else none) = _
    simp [search]
  | node y l r ihl ihr =>
    cases found : hit y with
    | true =>
      unfold insert
      split <;> simp [search,found]
    | false =>
      unfold insert
      split
      · rename_i before
        simp only [search,found,Bool.false_eq_true,if_false,ihl]
        split
        · rfl
        · rename_i right
          have missed : hit x = false := by
            cases wanted : hit x with
            | false => rfl
            | true =>
              rw [agrees wanted y found] at before
              exact absurd before right
          simp [missed]
      · rename_i behind
        simp only [search,found,Bool.false_eq_true,if_false,ihr]
        split
        · rename_i leftwards
          have missed : hit x = false := by
            cases wanted : hit x with
            | false => rfl
            | true =>
              rw [agrees wanted y found] at behind
              exact absurd leftwards behind
          simp [missed]
        · rfl

-- What a search finds is what was inserted first of all that it would hit.
theorem search_build (agrees : ∀ x, hit x = true → ∀ y, hit y = false → go y x = left y) (xs : List α) :
    search hit left (build go xs) = xs.find? hit := by
  induction xs using List.reverseRecOn with
  | nil => rfl
  | append_singleton xs x ih =>
    rw [build_append,search_insert (agrees x),ih,List.find?_append]
    cases found : hit x <;> simp [found]

variable {s : BinaryTree α} {x : α}

theorem Subtree.sublist (part : Subtree s t) : (members s).Sublist (members t) := by
  induction part with
  | all => exact .refl _
  | left _ ih => exact (ih.trans (List.sublist_append_left _ _)).cons _
  | right _ ih => exact (ih.trans (List.sublist_append_right _ _)).cons _

theorem Subtree.ordered (part : Subtree s t) (ordered : Ordered go t) : Ordered go s := by
  induction part with
  | all => exact ordered
  | left _ ih => exact ih ordered.2.2.1
  | right _ ih => exact ih ordered.2.2.2

theorem subtree_of_member (member : x ∈ members t) : ∃ l r, Subtree (.node x l r) t := by
  induction t with
  | nil => cases member
  | node y l r ihl ihr =>
    rcases List.mem_cons.mp member with rfl | below
    · exact ⟨l,r,.all⟩
    · rcases List.mem_append.mp below with onLeft | onRight
      · obtain ⟨l',r',part⟩ := ihl onLeft
        exact ⟨l',r',.left part⟩
      · obtain ⟨l',r',part⟩ := ihr onRight
        exact ⟨l',r',.right part⟩

-- A part of a tree is the whole of it or hangs below one of its nodes.
theorem Subtree.above (part : Subtree s t) :
    s = t ∨ ∃ y u, Subtree (.node y s u) t ∨ Subtree (.node y u s) t := by
  induction part with
  | all => exact .inl rfl
  | @left l x r _ ih =>
    rcases ih with rfl | ⟨y,u,onLeft | onRight⟩
    · exact .inr ⟨x,r,.inl .all⟩
    · exact .inr ⟨y,u,.inl onLeft.left⟩
    · exact .inr ⟨y,u,.inr onRight.left⟩
  | @right r x l _ ih =>
    rcases ih with rfl | ⟨y,u,onLeft | onRight⟩
    · exact .inr ⟨x,l,.inr .all⟩
    · exact .inr ⟨y,u,.inl onLeft.right⟩
    · exact .inr ⟨y,u,.inr onRight.right⟩

end PcNetwork.SearchTree
