import PcNetwork.Library.Heap
import PcNetwork.Library.SearchTree
import Mathlib.Data.List.Nodup

namespace PcNetwork.Libbase
variable {κ υ : Type}

structure CBsTreeNode (κ υ : Type) where
  key : κ
  val : υ
  parent : Option Nat
  left : Option Nat
  right : Option Nat

-- A recursion or a loop over nodes gets as many steps as nodes were ever allocated. One
-- that needs more has come to a node twice.
def CBsTreeNode.clear : Nat → Heap (CBsTreeNode κ υ) → Option Nat → Except HeapFault (Heap (CBsTreeNode κ υ))
  | 0,_,_ => .error .endless
  | n+1,heap,this => do
    let node ← heap.read this
    let heap ← (if node.left.isSome then clear n heap node.left else pure heap)
    let node ← heap.read this
    let heap ← (if node.right.isSome then clear n heap node.right else pure heap)
    heap.delete this

structure CBsTree (κ υ : Type) where
  heap : Heap (CBsTreeNode κ υ)
  root : Option Nat

namespace CBsTree
variable (cmp : κ → κ → Bool)

def new : CBsTree κ υ := ⟨.empty,none⟩

-- The root stays as it is.
def clear (t : CBsTree κ υ) : Except HeapFault (CBsTree κ υ) := do
  let heap ← (if t.root.isSome then CBsTreeNode.clear t.heap.count t.heap t.root else pure t.heap)
  return {t with heap}

def insertLoop (pKey : κ) (pVal : υ) :
    Nat → Heap (CBsTreeNode κ υ) → Option Nat → Except HeapFault (Heap (CBsTreeNode κ υ))
  | _,heap,none => .ok heap
  | 0,_,some _ => .error .endless
  | n+1,heap,some tmp => do
    let node ← heap.read (some tmp)
    if cmp node.key pKey then
      if node.left.isNone then
        (heap.alloc ⟨pKey,pVal,some tmp,none,none⟩).modify (some tmp) fun node => {node with left := some heap.count}
      else insertLoop pKey pVal n heap node.left
    else
      if node.right.isNone then
        (heap.alloc ⟨pKey,pVal,some tmp,none,none⟩).modify (some tmp) fun node => {node with right := some heap.count}
      else insertLoop pKey pVal n heap node.right

def insert (t : CBsTree κ υ) (pKey : κ) (pVal : υ) : Except HeapFault (CBsTree κ υ) :=
  if t.root.isNone then .ok ⟨t.heap.alloc ⟨pKey,pVal,none,none,none⟩,some t.heap.count⟩
  else do
    let heap ← insertLoop cmp pKey pVal t.heap.count t.heap t.root
    return {t with heap}

-- For a child of the removed node: if (child->parent) child->parent = parent.
def reparent (heap : Heap (CBsTreeNode κ υ)) (child parent : Option Nat) : Except HeapFault (Heap (CBsTreeNode κ υ)) := do
  let node ← heap.read child
  if node.parent.isSome then heap.modify child fun node => {node with parent} else return heap

variable [BEq κ]

def searchLoop (pKey : κ) (heap : Heap (CBsTreeNode κ υ)) : Nat → Option Nat → Except HeapFault (Option Nat)
  | _,none => .ok none
  | 0,some _ => .error .endless
  | n+1,some tmp => do
    let node ← heap.read (some tmp)
    if node.key == pKey then return some tmp
    if cmp node.key pKey then searchLoop pKey heap n node.left else searchLoop pKey heap n node.right

def searchNode (t : CBsTree κ υ) (pKey : κ) : Except HeapFault (Option Nat) :=
  searchLoop cmp pKey t.heap t.heap.count t.root

-- Where the source calls search, which does not exist, this is searchNode.
def remove (t : CBsTree κ υ) (pKey : κ) : Except HeapFault (CBsTree κ υ) := do
  let tmp ← t.searchNode cmp pKey
  if tmp.isNone then return t
  else
    let node ← t.heap.read tmp
    let parent := node.parent
    if parent.isNone then
      let heap ← t.heap.delete tmp
      return ⟨heap,none⟩
    else
      let heap ← t.heap.modify parent fun above => {above with left := node.left}
      let node ← heap.read tmp
      let heap ← heap.modify parent fun above => {above with right := node.right}
      let node ← heap.read tmp
      let heap ← reparent heap node.left parent
      let node ← heap.read tmp
      let heap ← reparent heap node.right parent
      let heap ← heap.delete tmp
      return {t with heap}

end CBsTree

-- The tree that the nodes are linked to: every node points to its children and back to
-- its parent.
structure Item (κ υ : Type) where
  addr : Nat
  key : κ
  val : υ

inductive Linked (cells : Nat → Option (CBsTreeNode κ υ)) : Option Nat → Option Nat → BinaryTree (Item κ υ) → Prop where
  | nil : Linked cells parent none .nil
  | node {x : Item κ υ} (here : cells x.addr = some ⟨x.key,x.val,parent,left,right⟩) :
      Linked cells (some x.addr) left l → Linked cells (some x.addr) right r →
      Linked cells parent (some x.addr) (.node x l r)

def addresses (t : BinaryTree (Item κ υ)) : List Nat := (SearchTree.members t).map Item.addr

@[simp] theorem addresses_node (x : Item κ υ) (l r : BinaryTree (Item κ υ)) :
    addresses (.node x l r) = x.addr :: (addresses l ++ addresses r) := by
  simp [addresses,SearchTree.members]

theorem forall_addresses {x : Item κ υ} {l r : BinaryTree (Item κ υ)} {P : Nat → Prop} :
    (∀ a ∈ addresses (.node x l r), P a) ↔ P x.addr ∧ (∀ a ∈ addresses l, P a) ∧ ∀ a ∈ addresses r, P a := by
  rw [addresses_node,List.forall_mem_cons,List.forall_mem_append]

theorem outside_node {x : Item κ υ} {l r : BinaryTree (Item κ υ)} (outside : a ∉ addresses (.node x l r)) :
    a ≠ x.addr ∧ a ∉ addresses l ∧ a ∉ addresses r := by
  rw [addresses_node] at outside
  obtain ⟨other,below⟩ := List.ne_and_not_mem_of_not_mem_cons outside
  exact ⟨other,fun member => below (List.mem_append_left _ member),fun member => below (List.mem_append_right _ member)⟩

theorem apart_node {x : Item κ υ} {l r : BinaryTree (Item κ υ)} (apart : (addresses (.node x l r)).Nodup) :
    x.addr ∉ addresses l ∧ x.addr ∉ addresses r ∧ (addresses l).Nodup ∧ (addresses r).Nodup ∧
      ∀ a ∈ addresses r, a ∉ addresses l := by
  rw [addresses_node] at apart
  obtain ⟨alone,both⟩ := List.nodup_cons.mp apart
  obtain ⟨apartLeft,apartRight,between⟩ := List.nodup_append.mp both
  refine ⟨fun member => alone (List.mem_append_left _ member),fun member => alone (List.mem_append_right _ member),
    apartLeft,apartRight,?_⟩
  intro a right left
  exact between a left a right rfl

namespace Linked
open SearchTree

variable {cells after : Nat → Option (CBsTreeNode κ υ)} {t : BinaryTree (Item κ υ)}

theorem frame (linked : Linked cells parent p t) (same : ∀ a ∈ addresses t, after a = cells a) :
    Linked after parent p t := by
  induction linked with
  | nil => exact .nil
  | node here _ _ ihl ihr =>
    simp only [addresses_node,List.forall_mem_cons,List.forall_mem_append] at same
    exact .node (same.1.trans here) (ihl same.2.1) (ihr same.2.2)

end Linked

namespace CBsTree
open SearchTree

variable (cmp : κ → κ → Bool)

-- The lower node belongs to the left of the upper one.
def goesLeft (upper lower : Item κ υ) : Bool := cmp upper.key lower.key

theorem insertLoop_node (pKey : κ) (pVal : υ) {heap : Heap (CBsTreeNode κ υ)} {node : CBsTreeNode κ υ} {a : Nat}
    (here : heap.cells a = some node) (n : Nat) :
    insertLoop cmp pKey pVal (n+1) heap (some a) =
      if cmp node.key pKey then
        if node.left.isNone then
          (heap.alloc ⟨pKey,pVal,some a,none,none⟩).modify (some a) fun node => {node with left := some heap.count}
        else insertLoop cmp pKey pVal n heap node.left
      else
        if node.right.isNone then
          (heap.alloc ⟨pKey,pVal,some a,none,none⟩).modify (some a) fun node => {node with right := some heap.count}
        else insertLoop cmp pKey pVal n heap node.right := by
  rw [insertLoop,Heap.read_ok here]
  rfl

theorem alloc_modify {heap : Heap (CBsTreeNode κ υ)} {node : CBsTreeNode κ υ} {a : Nat} (fresh : CBsTreeNode κ υ)
    (f : CBsTreeNode κ υ → CBsTreeNode κ υ) (here : heap.cells a = some node) (known : a < heap.count) :
    (heap.alloc fresh).modify (some a) f =
      .ok ⟨heap.count+1,Heap.put (Heap.put heap.cells heap.count (some fresh)) a (some (f node)),heap.deleted⟩ := by
  have still : (heap.alloc fresh).cells a = some node := (Heap.put_other (Nat.ne_of_lt known)).trans here
  rw [Heap.modify_ok still]
  rfl

-- The new node takes the place that the search tree gives it, and no other node moves.
theorem insertLoop_linked (pKey : κ) (pVal : υ) {heap : Heap (CBsTreeNode κ υ)} {t : BinaryTree (Item κ υ)}
    (linked : Linked heap.cells parent p t) (inside : p ≠ none) (apart : (addresses t).Nodup)
    (known : ∀ a ∈ addresses t, a < heap.count) (enough : (addresses t).length ≤ n) :
    ∃ next, insertLoop cmp pKey pVal n heap p = .ok next ∧ next.count = heap.count+1 ∧ next.deleted = heap.deleted ∧
      (∀ a, a < heap.count → a ∉ addresses t → next.cells a = heap.cells a) ∧
      Linked next.cells parent p (SearchTree.insert (goesLeft cmp) ⟨heap.count,pKey,pVal⟩ t) := by
  induction linked generalizing n with
  | nil => exact absurd rfl inside
  | @node parent left right l r x here hl hr ihl ihr =>
    obtain ⟨notLeft,notRight,apartLeft,apartRight,fromRight⟩ := apart_node apart
    obtain ⟨low,lowLeft,lowRight⟩ := forall_addresses.mp known
    simp only [addresses_node,List.length_cons,List.length_append] at enough
    obtain ⟨m,rfl⟩ : ∃ m, n = m+1 := ⟨n-1,by omega⟩
    have beyond (a : Nat) (below : a < heap.count) (unlike : a ≠ x.addr) (fresh old : CBsTreeNode κ υ) :
        Heap.put (Heap.put heap.cells heap.count (some fresh)) x.addr (some old) a = heap.cells a := by
      rw [Heap.put_other unlike,Heap.put_other (Nat.ne_of_lt below)]
    rw [insertLoop_node cmp pKey pVal here]
    unfold SearchTree.insert goesLeft
    dsimp only
    split
    · cases hl with
      | nil =>
        refine ⟨_,alloc_modify _ _ here low,rfl,rfl,?_,?_⟩
        · intro a below outside
          exact beyond a below (outside_node outside).1 _ _
        · refine .node (Heap.put_same _ _ _) ?_ ?_
          · refine Linked.node (x := ⟨heap.count,pKey,pVal⟩) ?_ .nil .nil
            exact (Heap.put_other (Nat.ne_of_gt low)).trans (Heap.put_same _ _ _)
          · refine hr.frame fun a member => beyond a (lowRight a member) ?_ _ _
            rintro rfl
            exact notRight member
      | @node _ _ _ ll lr y thereLeft hll hlr =>
        obtain ⟨next,ran,count,deleted,others,below⟩ := ihl (by simp) apartLeft lowLeft (n := m) (by omega)
        refine ⟨next,ran,count,deleted,?_,?_⟩
        · intro a bound outside
          exact others a bound (outside_node outside).2.1
        · refine .node ((others _ low notLeft).trans here) below ?_
          exact hr.frame fun a member => others a (lowRight a member) (fromRight a member)
    · cases hr with
      | nil =>
        refine ⟨_,alloc_modify _ _ here low,rfl,rfl,?_,?_⟩
        · intro a below outside
          exact beyond a below (outside_node outside).1 _ _
        · refine .node (Heap.put_same _ _ _) ?_ ?_
          · refine hl.frame fun a member => beyond a (lowLeft a member) ?_ _ _
            rintro rfl
            exact notLeft member
          · refine Linked.node (x := ⟨heap.count,pKey,pVal⟩) ?_ .nil .nil
            exact (Heap.put_other (Nat.ne_of_gt low)).trans (Heap.put_same _ _ _)
      | @node _ _ _ rl rr y thereRight hrl hrr =>
        obtain ⟨next,ran,count,deleted,others,below⟩ := ihr (by simp) apartRight lowRight (n := m) (by omega)
        refine ⟨next,ran,count,deleted,?_,?_⟩
        · intro a bound outside
          exact others a bound (outside_node outside).2.2
        · refine .node ((others _ low notRight).trans here) ?_ below
          exact hl.frame fun a member => others a (lowLeft a member) fun right => fromRight a right member

def entries (xs : List (κ × υ)) : List (Item κ υ) := xs.zipIdx.map fun x => ⟨x.2,x.1.1,x.1.2⟩

theorem entries_append (xs : List (κ × υ)) (x : κ × υ) : entries (xs ++ [x]) = entries xs ++ [⟨xs.length,x.1,x.2⟩] := by
  simp [entries,List.zipIdx_append]

theorem entries_addr (xs : List (κ × υ)) : (entries xs).map Item.addr = List.range xs.length := by
  rw [entries,List.map_map,List.range_eq_range',← List.zipIdx_map_snd]
  rfl

theorem entry_at (xs : List (κ × υ)) (inside : a < xs.length) : ∃ x ∈ entries xs, x.addr = a := by
  have member := List.mem_range.mpr inside
  rw [← entries_addr] at member
  exact List.mem_map.mp member

theorem entries_unique {xs : List (κ × υ)} {x y : Item κ υ} (hx : x ∈ entries xs) (hy : y ∈ entries xs)
    (same : x.addr = y.addr) : x = y := by
  have apart : ((entries xs).map Item.addr).Nodup := by
    rw [entries_addr]
    exact List.nodup_range
  exact List.inj_on_of_nodup_map apart hx hy same

-- What a tree is that nothing but insert has worked on.
structure Grown (xs : List (κ × υ)) (t : CBsTree κ υ) : Prop where
  count : t.heap.count = xs.length
  deleted : t.heap.deleted = []
  linked : Linked t.heap.cells none t.root (build (goesLeft cmp) (entries xs))

def insertAll (xs : List (κ × υ)) : Except HeapFault (CBsTree κ υ) :=
  xs.foldlM (fun t x => t.insert cmp x.1 x.2) new

theorem addresses_build (xs : List (κ × υ)) :
    (addresses (build (goesLeft cmp) (entries xs))).Perm (List.range xs.length) := by
  rw [← entries_addr]
  exact (members_build _).map _

variable {cmp}

theorem Grown.insert {t : CBsTree κ υ} (grown : Grown cmp xs t) (x : κ × υ) :
    ∃ next, t.insert cmp x.1 x.2 = .ok next ∧ Grown cmp (xs ++ [x]) next := by
  obtain ⟨count,deleted,linked⟩ := grown
  have added : build (goesLeft cmp) (entries (xs ++ [x])) =
      SearchTree.insert (goesLeft cmp) ⟨t.heap.count,x.1,x.2⟩ (build (goesLeft cmp) (entries xs)) := by
    rw [entries_append,build_append,count]
  have places := addresses_build cmp xs
  cases t with
  | mk heap root =>
  cases root with
  | none =>
    refine ⟨_,rfl,?_,deleted,?_⟩
    · rw [List.length_append]
      exact congrArg (·+1) count
    · rw [added]
      generalize build (goesLeft cmp) (entries xs) = before at linked
      cases linked with
      | nil => exact Linked.node (x := ⟨heap.count,x.1,x.2⟩) (Heap.put_same _ _ _) .nil .nil
  | some a =>
    obtain ⟨next,ran,count',deleted',-,linked'⟩ := insertLoop_linked cmp x.1 x.2 (n := heap.count) linked (by simp)
      (places.nodup_iff.mpr List.nodup_range) (fun a member => by
        rw [count]
        exact List.mem_range.mp (places.mem_iff.mp member))
      (by rw [places.length_eq,List.length_range,count])
    refine ⟨⟨next,some a⟩,?_,?_,?_,?_⟩
    · show (insertLoop cmp x.1 x.2 heap.count heap (some a) >>= fun heap => pure (⟨heap,some a⟩ : CBsTree κ υ)) = _
      rw [ran]
      rfl
    · rw [List.length_append,count',count]
      rfl
    · exact deleted'.trans deleted
    · rw [added]
      exact linked'

variable (cmp) in
theorem insertAll_grown (xs : List (κ × υ)) : ∃ t, insertAll cmp xs = .ok t ∧ Grown cmp xs t := by
  induction xs using List.reverseRecOn with
  | nil => exact ⟨new,rfl,rfl,rfl,.nil⟩
  | append_singleton xs x ih =>
    obtain ⟨t,ran,grown⟩ := ih
    obtain ⟨next,again,grown'⟩ := grown.insert x
    refine ⟨next,?_,grown'⟩
    rw [insertAll,foldlM_one_more]
    show (insertAll cmp xs >>= fun t => t.insert cmp x.1 x.2) = _
    rw [ran]
    exact again

-- What the comparison of a search tree has to be: a strict order in which the keys that
-- are not less either way are the equal ones.
structure Comparison (cmp : κ → κ → Bool) [BEq κ] : Prop where
  irrefl : ∀ k, cmp k k = false
  trans : ∀ {k l m : κ}, cmp k l = true → cmp l m = true → cmp k m = true
  total : ∀ k l, (k == l) = true ↔ cmp k l = false ∧ cmp l k = false
  equal : ∀ {k l m : κ}, (k == l) = true → (l == m) = true → (k == m) = true

variable [BEq κ]

-- Equal keys are less than and above the same keys.
theorem Comparison.agrees (comparison : Comparison cmp) {k l m : κ} (same : (l == k) = true) (other : (m == k) = false) :
    cmp m l = cmp m k := by
  obtain ⟨lk,kl⟩ := (comparison.total l k).mp same
  cases ml : cmp m l with
  | true =>
    cases mk : cmp m k with
    | true => rfl
    | false =>
      cases km : cmp k m with
      | true => exact absurd (comparison.trans km ml) (by rw [kl]; exact Bool.false_ne_true)
      | false => exact absurd ((comparison.total m k).mpr ⟨mk,km⟩) (by rw [other]; exact Bool.false_ne_true)
  | false =>
    cases mk : cmp m k with
    | false => rfl
    | true =>
      cases lm : cmp l m with
      | true => exact absurd (comparison.trans lm mk) (by rw [lk]; exact Bool.false_ne_true)
      | false =>
        have between := comparison.equal ((comparison.total m l).mpr ⟨ml,lm⟩) same
        exact absurd between (by rw [other]; exact Bool.false_ne_true)

theorem searchLoop_linked (pKey : κ) {heap : Heap (CBsTreeNode κ υ)} {t : BinaryTree (Item κ υ)}
    (linked : Linked heap.cells parent p t) (enough : (addresses t).length ≤ n) :
    searchLoop cmp pKey heap n p = .ok ((search (fun x => x.key == pKey) (fun x => cmp x.key pKey) t).map Item.addr) := by
  induction linked generalizing n with
  | nil => cases n <;> rfl
  | @node parent left right l r x here hl hr ihl ihr =>
    rw [addresses_node,List.length_cons,List.length_append] at enough
    obtain ⟨m,rfl⟩ : ∃ m, n = m+1 := ⟨n-1,by omega⟩
    rw [searchLoop,Heap.read_ok here]
    show (if (x.key == pKey) = true then _ else _) = _
    rw [search]
    split
    · rfl
    · rw [ihl (by omega),ihr (by omega)]
      split <;> rfl

theorem find_entries (xs : List (κ × υ)) (pKey : κ) :
    ((entries xs).find? fun x => x.key == pKey).map Item.addr = xs.findIdx? fun x => x.1 == pKey := by
  rw [entries,List.find?_map,List.findIdx?_eq_fst_find?_zipIdx,Option.map_map]
  rfl

-- A search finds the node of the first insert of an equal key.
theorem Grown.search (comparison : Comparison cmp) {t : CBsTree κ υ} (grown : Grown cmp xs t) (pKey : κ) :
    t.searchNode cmp pKey = .ok (xs.findIdx? fun x => x.1 == pKey) := by
  have enough : (addresses (build (goesLeft cmp) (entries xs))).length ≤ t.heap.count := by
    rw [(addresses_build cmp xs).length_eq,List.length_range,grown.count]
  rw [searchNode,searchLoop_linked pKey grown.linked enough,search_build,find_entries]
  intro x hit y other
  exact comparison.agrees hit other

-- The order of the search tree and the links hold, every node that was inserted is in the
-- tree, and a search returns a node exactly when an equal key was inserted.
structure FindsInserted (cmp : κ → κ → Bool) (xs : List (κ × υ)) (t : CBsTree κ υ) : Prop where
  tree : ∃ shape, Linked t.heap.cells none t.root shape ∧ Ordered (goesLeft cmp) shape ∧
    (members shape).Perm (entries xs)
  finds : ∀ pKey, t.searchNode cmp pKey = .ok (xs.findIdx? fun x => x.1 == pKey)

theorem search_finds_inserted (comparison : Comparison cmp) (xs : List (κ × υ)) :
    ∃ t, insertAll cmp xs = .ok t ∧ FindsInserted cmp xs t := by
  obtain ⟨t,ran,grown⟩ := insertAll_grown cmp xs
  exact ⟨t,ran,⟨_,grown.linked,ordered_build _,members_build _⟩,grown.search comparison⟩

theorem natural_comparison : Comparison fun k l : Nat => decide (k < l) where
  irrefl k := decide_eq_false (Nat.lt_irrefl k)
  trans first second := decide_eq_true (Nat.lt_trans (of_decide_eq_true first) (of_decide_eq_true second))
  total k l := by
    simp only [beq_iff_eq,decide_eq_false_iff_not,Nat.not_lt]
    omega
  equal first second := beq_iff_eq.mpr ((beq_iff_eq.mp first).trans (beq_iff_eq.mp second))

theorem search_finds_inserted_twice : ∃ t, insertAll (fun k l : Nat => decide (k < l)) [(5,0),(7,1),(2,2),(7,3)] = .ok t ∧
    FindsInserted (fun k l : Nat => decide (k < l)) [(5,0),(7,1),(2,2),(7,3)] t :=
  search_finds_inserted natural_comparison _

end CBsTree
end PcNetwork.Libbase
