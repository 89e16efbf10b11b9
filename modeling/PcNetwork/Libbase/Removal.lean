import PcNetwork.Libbase.BsTree

namespace PcNetwork.Libbase
open SearchTree

variable {κ υ : Type}

namespace Linked
variable {cells : Nat → Option (CBsTreeNode κ υ)} {s t : BinaryTree (Item κ υ)}

theorem subtree (linked : Linked cells parent p t) (part : Subtree s t) : ∃ above q, Linked cells above q s := by
  induction part generalizing parent p with
  | all => exact ⟨parent,p,linked⟩
  | left _ ih =>
    cases linked with
    | node _ hl _ => exact ih hl
  | right _ ih =>
    cases linked with
    | node _ _ hr => exact ih hr

end Linked

namespace CBsTree

-- The children of a node.
def sides (heap : Heap (CBsTreeNode κ υ)) (a : Nat) : Option (Option Nat × Option Nat) :=
  (heap.cells a).map fun node => (node.left,node.right)

theorem sides_of {heap : Heap (CBsTreeNode κ υ)} {node : CBsTreeNode κ υ} (here : heap.cells a = some node) :
    sides heap a = some (node.left,node.right) := by
  rw [sides,here]
  rfl

-- A child that is there gets its new parent and keeps its own children.
theorem reparent_sides {heap next : Heap (CBsTreeNode κ υ)} {child parent : Option Nat}
    (ran : reparent heap child parent = .ok next) : child ≠ none ∧ sides next = sides heap := by
  obtain ⟨node,reads,rest⟩ := sequence_returned ran
  obtain ⟨a,rfl,here⟩ := Heap.read_returned reads
  refine ⟨Option.some_ne_none a,?_⟩
  split at rest
  · rw [Heap.modify_ok here] at rest
    cases rest
    funext b
    by_cases same : b = a
    · rw [same,sides_of here]
      show Option.map _ (Heap.put heap.cells a _ a) = _
      rw [Heap.put_same]
      rfl
    · exact congrArg _ (Heap.put_other same)
  · cases rest
    rfl

variable {cmp : κ → κ → Bool}

-- A pointer to an inserted node leads to that node.
theorem pointed {xs : List (κ × υ)} {cells : Nat → Option (CBsTreeNode κ υ)} {x : Item κ υ} {s : BinaryTree (Item κ υ)}
    (linked : Linked cells parent (some x.addr) s) (known : x ∈ entries xs) (within : ∀ w ∈ members s, w ∈ entries xs) :
    x ∈ members s := by
  generalize address : some x.addr = p at linked
  cases linked with
  | nil => cases address
  | @node _ _ _ _ _ w here _ _ =>
    have same : x = w := entries_unique known (within w List.mem_cons_self) (Option.some.inj address)
    rw [same]
    exact List.mem_cons_self

-- What hangs at a node: it is linked to it, and lies on one side of it.
theorem hanging {t : BinaryTree (Item κ υ)} {cells : Nat → Option (CBsTreeNode κ υ)} {z y : Item κ υ}
    (linked : Linked cells parent p t) (ordered : Ordered (goesLeft cmp) t) (apart : (addresses t).Nodup)
    (part : Subtree (.node y (.node z l r) u) t ∨ Subtree (.node y u (.node z l r)) t) :
    ∃ node q side, cells y.addr = some node ∧ Linked cells (some y.addr) q (.node z l r) ∧
      (∀ w ∈ members (.node z l r), w ∈ members t ∧ goesLeft cmp y w = side) ∧ y ∈ members t ∧ z.addr ≠ y.addr := by
  rcases part with part | part
  · obtain ⟨_,_,here⟩ := linked.subtree part
    have inside := part.sublist
    obtain ⟨notLeft,-⟩ := apart_node (apart.sublist (inside.map Item.addr))
    cases here with
    | node here hl _ =>
      refine ⟨_,_,true,here,hl,?_,inside.subset List.mem_cons_self,?_⟩
      · intro w member
        exact ⟨inside.subset (List.mem_cons_of_mem _ (List.mem_append_left _ member)),(part.ordered ordered).1 w member⟩
      · intro same
        exact notLeft (same ▸ List.mem_map_of_mem List.mem_cons_self)
  · obtain ⟨_,_,here⟩ := linked.subtree part
    have inside := part.sublist
    obtain ⟨-,notRight,-⟩ := apart_node (apart.sublist (inside.map Item.addr))
    cases here with
    | node here _ hr =>
      refine ⟨_,_,false,here,hr,?_,inside.subset List.mem_cons_self,?_⟩
      · intro w member
        exact ⟨inside.subset (List.mem_cons_of_mem _ (List.mem_append_right _ member)),(part.ordered ordered).2.1 w member⟩
      · intro same
        exact notRight (same ▸ List.mem_map_of_mem List.mem_cons_self)

variable [BEq κ]

-- One node and no other is taken out of the tree, or none where no key is equal.
inductive RemovesOne (cmp : κ → κ → Bool) (xs : List (κ × υ)) (t : CBsTree κ υ) (pKey : κ) : Prop where
  | absent (missing : t.searchNode cmp pKey = .ok none) (unchanged : t.remove cmp pKey = .ok t)
  | removed (found : t.searchNode cmp pKey = .ok (some a)) (ran : t.remove cmp pKey = .ok next)
      (linked : Linked next.heap.cells none next.root rest) (ordered : Ordered (goesLeft cmp) rest)
      (others : (members rest).Perm ((entries xs).filter fun x => x.addr != a))

theorem remove_absent {t : CBsTree κ υ} {pKey : κ} (missing : t.searchNode cmp pKey = .ok none) :
    t.remove cmp pKey = .ok t := by
  rw [remove,missing]
  rfl

theorem remove_root {t : CBsTree κ υ} {pKey : κ} {node : CBsTreeNode κ υ} (found : t.searchNode cmp pKey = .ok (some a))
    (here : t.heap.cells a = some node) (top : node.parent = none) :
    t.remove cmp pKey = .ok ⟨{t.heap with cells := Heap.put t.heap.cells a none,deleted := t.heap.deleted ++ [a]},none⟩ := by
  rw [remove,found]
  show (t.heap.read (some a) >>= _) = _
  rw [Heap.read_ok here]
  show (if node.parent.isNone = true then _ else _) = _
  rw [top]
  show (t.heap.delete (some a) >>= _) = _
  rw [Heap.delete_ok here]
  rfl

-- Below the root, both children of the removed node are read, and both become the
-- children of its parent.
theorem remove_inner {t next : CBsTree κ υ} {pKey : κ} {node above : CBsTreeNode κ υ}
    (found : t.searchNode cmp pKey = .ok (some a)) (here : t.heap.cells a = some node) (hangs : node.parent = some b)
    (upper : t.heap.cells b = some above) (apart : a ≠ b) (ran : t.remove cmp pKey = .ok next) :
    node.left ≠ none ∧ node.right ≠ none ∧ sides next.heap b = some (node.left,node.right) := by
  rw [remove,found] at ran
  replace ran : (t.heap.read (some a) >>= _) = Except.ok next := ran
  rw [Heap.read_ok here] at ran
  replace ran : (if node.parent.isNone = true then _ else _) = Except.ok next := ran
  rw [hangs] at ran
  obtain ⟨first,linksLeft,ran⟩ := sequence_returned ran
  obtain ⟨node₁,reads₁,ran⟩ := sequence_returned ran
  obtain ⟨second,linksRight,ran⟩ := sequence_returned ran
  obtain ⟨node₂,reads₂,ran⟩ := sequence_returned ran
  obtain ⟨third,movesLeft,ran⟩ := sequence_returned ran
  obtain ⟨node₃,reads₃,ran⟩ := sequence_returned ran
  obtain ⟨fourth,movesRight,ran⟩ := sequence_returned ran
  obtain ⟨last,deletes,ran⟩ := sequence_returned ran
  cases ran
  rw [Heap.modify_ok upper] at linksLeft
  cases linksLeft
  have here₁ : Heap.put t.heap.cells b (some {above with left := node.left}) a = some node :=
    (Heap.put_other apart).trans here
  rw [Heap.read_ok here₁] at reads₁
  cases reads₁
  rw [Heap.modify_ok (Heap.put_same _ _ _)] at linksRight
  cases linksRight
  have here₂ : Heap.put (Heap.put t.heap.cells b (some {above with left := node.left})) b
      (some {above with left := node.left,right := node.right}) a = some node := (Heap.put_other apart).trans here₁
  rw [Heap.read_ok here₂] at reads₂
  cases reads₂
  obtain ⟨hasLeft,kept⟩ := reparent_sides movesLeft
  have same := (sides_of (Heap.read_cell reads₃)).symm.trans ((congrFun kept a).trans (sides_of here₂))
  obtain ⟨-,sameRight⟩ := Prod.mk.inj (Option.some.inj same)
  rw [sameRight] at movesRight
  obtain ⟨hasRight,kept'⟩ := reparent_sides movesRight
  obtain ⟨-,rfl⟩ := Heap.delete_returned deletes
  refine ⟨hasLeft,hasRight,?_⟩
  show Option.map _ (Heap.put fourth.cells a none b) = _
  rw [Heap.put_other apart.symm]
  refine (congrFun (kept'.trans kept) b).trans ?_
  exact (congrArg _ (Heap.put_same _ _ _)).trans rfl

-- The children of a node below the root are on the same side of its parent, so they
-- cannot become children on both sides of it.
theorem no_inner_removal {xs : List (κ × υ)} {t next : CBsTree κ υ} {pKey : κ} {rest : BinaryTree (Item κ υ)}
    (grown : Grown cmp xs t) {z y : Item κ υ}
    (part : Subtree (.node y (.node z l r) u) (build (goesLeft cmp) (entries xs)) ∨
      Subtree (.node y u (.node z l r)) (build (goesLeft cmp) (entries xs)))
    (found : t.searchNode cmp pKey = .ok (some z.addr)) (ran : t.remove cmp pKey = .ok next)
    (linked : Linked next.heap.cells none next.root rest) (ordered : Ordered (goesLeft cmp) rest)
    (others : (members rest).Perm ((entries xs).filter fun x => x.addr != z.addr)) : False := by
  have places : (members (build (goesLeft cmp) (entries xs))).Perm (entries xs) := members_build _
  have apart : (addresses (build (goesLeft cmp) (entries xs))).Nodup :=
    (addresses_build cmp xs).nodup_iff.mpr List.nodup_range
  obtain ⟨above,q,side,upper,hangs,sameSide,inside,other⟩ := hanging grown.linked (ordered_build _) apart part
  cases hangs with
  | @node _ left right _ _ _ here hl hr =>
    obtain ⟨hasLeft,hasRight,moved⟩ := remove_inner found here rfl upper other ran
    cases hl with
    | nil => exact hasLeft rfl
    | @node _ _ _ _ _ cl hereLeft _ _ =>
    cases hr with
    | nil => exact hasRight rfl
    | @node _ _ _ _ _ cr hereRight _ _ =>
    obtain ⟨childLeft,onLeft⟩ := sameSide cl (List.mem_cons_of_mem _ (List.mem_append_left _ List.mem_cons_self))
    obtain ⟨childRight,onRight⟩ := sameSide cr (List.mem_cons_of_mem _ (List.mem_append_right _ List.mem_cons_self))
    have within : ∀ w ∈ members rest, w ∈ entries xs := fun w member => List.mem_of_mem_filter (others.mem_iff.mp member)
    have still : y ∈ members rest :=
      others.mem_iff.mpr (List.mem_filter.mpr ⟨places.mem_iff.mp inside,bne_iff_ne.mpr other.symm⟩)
    obtain ⟨l',r',part'⟩ := subtree_of_member still
    obtain ⟨lefts,rights,-⟩ := part'.ordered ordered
    obtain ⟨_,_,there⟩ := linked.subtree part'
    cases there with
    | node there hl' hr' =>
      have same := (sides_of there).symm.trans moved
      obtain ⟨toLeft,toRight⟩ := Prod.mk.inj (Option.some.inj same)
      dsimp only at toLeft toRight
      rw [toLeft] at hl'
      rw [toRight] at hr'
      have goLeft := lefts cl (pointed hl' (places.mem_iff.mp childLeft) fun w member =>
        within w (part'.sublist.subset (List.mem_cons_of_mem _ (List.mem_append_left _ member))))
      have goRight := rights cr (pointed hr' (places.mem_iff.mp childRight) fun w member =>
        within w (part'.sublist.subset (List.mem_cons_of_mem _ (List.mem_append_right _ member))))
      exact Bool.false_ne_true (goRight.symm.trans (onRight.trans (onLeft.symm.trans goLeft)))

-- A removal that works is one of the only node.
theorem removed_alone {xs : List (κ × υ)} {t next : CBsTree κ υ} {pKey : κ} {rest : BinaryTree (Item κ υ)}
    (grown : Grown cmp xs t) (inside : a < xs.length) (found : t.searchNode cmp pKey = .ok (some a))
    (ran : t.remove cmp pKey = .ok next) (linked : Linked next.heap.cells none next.root rest)
    (ordered : Ordered (goesLeft cmp) rest) (others : (members rest).Perm ((entries xs).filter fun x => x.addr != a)) :
    xs.length = 1 := by
  obtain ⟨z,known,rfl⟩ := entry_at xs inside
  have places : (members (build (goesLeft cmp) (entries xs))).Perm (entries xs) := members_build _
  obtain ⟨l,r,part⟩ := subtree_of_member (places.mem_iff.mpr known)
  rcases part.above with whole | ⟨y,u,below⟩
  · have top := grown.linked
    rw [← whole] at top
    generalize t.root = p at top
    cases top with
    | node here _ _ =>
      have gone := (remove_root found here rfl).symm.trans ran
      cases gone
      cases linked with
      | nil =>
        have alone := others.nil_eq.symm
        rw [List.filter_eq_nil_iff] at alone
        have only (b : Nat) (bound : b < xs.length) : b = z.addr := by
          obtain ⟨x,member,rfl⟩ := entry_at xs bound
          exact bne_eq_false_iff_eq.mp (Bool.eq_false_iff.mpr (alone x member))
        cases xs with
        | nil => cases inside
        | cons x xs =>
          cases xs with
          | nil => rfl
          | cons x' xs => exact absurd ((only 0 (by simp)).trans (only 1 (by simp)).symm) Nat.zero_ne_one
  · exact (no_inner_removal grown below found ran linked ordered others).elim

-- The property holds where there is nothing to remove and where the only node is
-- removed, and nowhere else.
theorem remove_removes_one_iff (comparison : Comparison cmp) (xs : List (κ × υ)) (pKey : κ) :
    (∃ t, insertAll cmp xs = .ok t ∧ RemovesOne cmp xs t pKey) ↔
      (∀ x ∈ xs, (x.1 == pKey) = false) ∨ xs.length = 1 := by
  obtain ⟨t,ran,grown⟩ := insertAll_grown cmp xs
  have search := grown.search comparison pKey
  constructor
  · rintro ⟨t',ran',removes⟩
    cases ran.symm.trans ran'
    cases removes with
    | absent missing _ =>
      have none := Except.ok.inj (search.symm.trans missing)
      exact .inl (List.findIdx?_eq_none_iff.mp none)
    | removed found removes linked ordered others =>
      have first := Except.ok.inj (search.symm.trans found)
      obtain ⟨inside,-⟩ := List.findIdx?_eq_some_iff_getElem.mp first
      exact .inr (removed_alone grown inside found removes linked ordered others)
  · intro condition
    refine ⟨t,ran,?_⟩
    by_cases none : ∀ x ∈ xs, (x.1 == pKey) = false
    · have missing : t.searchNode cmp pKey = .ok Option.none := by rw [search,List.findIdx?_eq_none_iff.mpr none]
      exact .absent missing (remove_absent missing)
    · obtain ⟨x,rfl⟩ := List.length_eq_one_iff.mp (condition.resolve_left none)
      have equal : (x.1 == pKey) = true := by simpa using none
      have found : t.searchNode cmp pKey = .ok (some 0) := by simp [search,List.findIdx?_cons,equal]
      have top : Linked t.heap.cells Option.none t.root (.node ⟨0,x.1,x.2⟩ .nil .nil) := grown.linked
      generalize t.root = p at top
      cases top with
      | node here _ _ => exact .removed found (remove_root found here rfl) Linked.nil trivial (.refl _)

theorem remove_removes_one_only : ∃ t, insertAll (fun k l : Nat => decide (k < l)) [(5,0)] = .ok t ∧
    RemovesOne (fun k l : Nat => decide (k < l)) [(5,0)] t 5 :=
  (remove_removes_one_iff natural_comparison [(5,0)] 5).mpr (.inr rfl)

theorem remove_leaf : ¬ ∃ t, insertAll (fun k l : Nat => decide (k < l)) [(5,0),(3,1)] = .ok t ∧
    RemovesOne (fun k l : Nat => decide (k < l)) [(5,0),(3,1)] t 3 := by
  rintro ⟨t,ran,removes⟩
  cases Except.ok.inj ran
  cases removes with
  | absent missing _ => cases missing
  | removed _ ran _ _ _ => cases ran

end CBsTree
end PcNetwork.Libbase
