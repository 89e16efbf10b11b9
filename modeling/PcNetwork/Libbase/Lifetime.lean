import PcNetwork.Libbase.BsTree

namespace PcNetwork.Libbase
open SearchTree

variable {κ υ : Type}

theorem CBsTreeNode.clear_node {heap : Heap (CBsTreeNode κ υ)} {node : CBsTreeNode κ υ} {a : Nat}
    (here : heap.cells a = some node) (n : Nat) :
    CBsTreeNode.clear (n+1) heap (some a) = (do
      let heap ← (if node.left.isSome then CBsTreeNode.clear n heap node.left else pure heap)
      let node ← heap.read (some a)
      let heap ← (if node.right.isSome then CBsTreeNode.clear n heap node.right else pure heap)
      heap.delete (some a)) := by
  rw [CBsTreeNode.clear,Heap.read_ok here]
  rfl

-- Every node of the tree is deleted once, its children before it, and no other node.
theorem clear_linked {heap : Heap (CBsTreeNode κ υ)} {t : BinaryTree (Item κ υ)} (linked : Linked heap.cells parent p t)
    (apart : (addresses t).Nodup) (enough : (addresses t).length ≤ n) :
    ∃ next, (if p.isSome then CBsTreeNode.clear n heap p else pure heap) = .ok next ∧ next.count = heap.count ∧
      next.deleted.Perm (heap.deleted ++ addresses t) ∧ ∀ a, a ∉ addresses t → next.cells a = heap.cells a := by
  induction t generalizing heap parent p n with
  | nil =>
    cases linked with
    | nil => exact ⟨heap,rfl,rfl,(List.append_nil _).symm ▸ .refl _,fun _ _ => rfl⟩
  | node x l r ihl ihr =>
    obtain ⟨notLeft,notRight,apartLeft,apartRight,fromRight⟩ := apart_node apart
    rw [addresses_node,List.length_cons,List.length_append] at enough
    obtain ⟨m,rfl⟩ : ∃ m, n = m+1 := ⟨n-1,by omega⟩
    cases linked with
    | @node _ left right _ _ _ here hl hr =>
      obtain ⟨first,ran,count,deleted,others⟩ := ihl hl apartLeft (n := m) (by omega)
      have hr' := hr.frame fun a member => others a (fromRight a member)
      obtain ⟨second,ran',count',deleted',others'⟩ := ihr hr' apartRight (n := m) (by omega)
      have here₁ := (others _ notLeft).trans here
      have here₂ := (others' _ notRight).trans here₁
      refine ⟨{second with cells := Heap.put second.cells x.addr none,deleted := second.deleted ++ [x.addr]},?_,?_,?_,?_⟩
      · show CBsTreeNode.clear (m+1) heap (some x.addr) = _
        rw [CBsTreeNode.clear_node here,ran]
        show (first.read (some x.addr) >>= _) = _
        rw [Heap.read_ok here₁]
        show ((if right.isSome = true then CBsTreeNode.clear m first right else pure first) >>= _) = _
        rw [ran']
        exact Heap.delete_ok here₂
      · exact count'.trans count
      · have children : second.deleted.Perm (heap.deleted ++ (addresses l ++ addresses r)) :=
          deleted'.trans ((deleted.append_right _).trans (.of_eq (List.append_assoc _ _ _)))
        rw [addresses_node]
        calc second.deleted ++ [x.addr]
          _ |>.Perm (x.addr :: second.deleted) := List.perm_append_singleton _ _
          _ |>.Perm (x.addr :: (heap.deleted ++ (addresses l ++ addresses r))) := children.cons _
          _ |>.Perm (heap.deleted ++ x.addr :: (addresses l ++ addresses r)) := List.perm_middle.symm
      · intro a outside
        obtain ⟨other,notLeft,notRight⟩ := outside_node outside
        calc Heap.put second.cells x.addr none a
          _ = second.cells a := Heap.put_other other
          _ = first.cells a := others' a notRight
          _ = heap.cells a := others a notLeft

namespace CBsTree

inductive Call (κ υ : Type) where
  | insert (pKey : κ) (pVal : υ)
  | clear

variable (cmp : κ → κ → Bool)

def perform (t : CBsTree κ υ) : Call κ υ → Except HeapFault (CBsTree κ υ)
  | .insert pKey pVal => t.insert cmp pKey pVal
  | .clear => t.clear

def runFrom (t : CBsTree κ υ) (calls : List (Call κ υ)) : Except HeapFault (CBsTree κ υ) := calls.foldlM (perform cmp) t
def run (calls : List (Call κ υ)) : Except HeapFault (CBsTree κ υ) := runFrom cmp new calls

-- The inserts since the last clear, and how many there were before it.
def pending : List (Call κ υ) → Nat → List (κ × υ) → Nat × List (κ × υ)
  | [],cleared,xs => (cleared,xs)
  | .insert pKey pVal :: calls,cleared,xs => pending calls cleared (xs ++ [(pKey,pVal)])
  | .clear :: calls,cleared,xs => pending calls (cleared+xs.length) []

-- The destructor is one more clear. Every node is deleted once by then, and in between
-- a search finds the node of the first insert of an equal key since the last clear.
structure LivesOnce (cmp : κ → κ → Bool) [BEq κ] (calls : List (Call κ υ)) : Prop where
  deleted : ∃ t last, run cmp calls = .ok t ∧ t.clear = .ok last ∧ last.heap.deleted.Perm (List.range last.heap.count)
  finds : ∀ earlier later, calls = earlier ++ later → ∃ t, run cmp earlier = .ok t ∧ ∀ pKey,
    t.searchNode cmp pKey = .ok
      (((pending earlier 0 []).2.findIdx? fun x => x.1 == pKey).map ((pending earlier 0 []).1 + ·))

variable {cmp}

theorem Grown.clear {t : CBsTree κ υ} (grown : Grown cmp xs t) :
    ∃ last, t.clear = .ok last ∧ last.heap.deleted.Perm (List.range last.heap.count) := by
  have places := addresses_build cmp xs
  obtain ⟨next,ran,count,deleted,-⟩ := clear_linked (n := t.heap.count) grown.linked
    (places.nodup_iff.mpr List.nodup_range) (by rw [places.length_eq,List.length_range,grown.count])
  refine ⟨{t with heap := next},?_,?_⟩
  · rw [CBsTree.clear,ran]
    rfl
  · rw [grown.deleted,List.nil_append] at deleted
    show next.deleted.Perm (List.range next.count)
    rw [count,grown.count]
    exact deleted.trans places

theorem pending_append (calls : List (Call κ υ)) (call : Call κ υ) (cleared : Nat) (xs : List (κ × υ)) :
    pending (calls ++ [call]) cleared xs = pending [call] (pending calls cleared xs).1 (pending calls cleared xs).2 := by
  induction calls generalizing cleared xs with
  | nil => rfl
  | cons first calls ih => cases first <;> exact ih _ _

-- No clear follows an insert.
def ClearsFirst (calls : List (Call κ υ)) : Prop :=
  ∀ earlier later, calls = earlier ++ .clear :: later → ∀ call ∈ earlier, call = .clear

theorem ClearsFirst.of_append {earlier later : List (Call κ υ)} (first : ClearsFirst (earlier ++ later)) : ClearsFirst earlier := by
  intro before after same
  refine first before (after ++ later) ?_
  rw [same,List.append_assoc]
  rfl

theorem pending_cleared (calls : List (Call κ υ)) (all : ∀ call ∈ calls, call = .clear) : pending calls 0 [] = (0,[]) := by
  induction calls with
  | nil => rfl
  | cons call calls ih =>
    obtain ⟨rfl,rest⟩ := List.forall_mem_cons.mp all
    exact ih rest

-- Without a clear behind an insert the tree is one that only inserts have worked on.
theorem run_grown (calls : List (Call κ υ)) (first : ClearsFirst calls) :
    ∃ t, run cmp calls = .ok t ∧ Grown cmp (pending calls 0 []).2 t ∧ (pending calls 0 []).1 = 0 := by
  induction calls using List.reverseRecOn with
  | nil => exact ⟨new,rfl,⟨rfl,rfl,.nil⟩,rfl⟩
  | append_singleton calls call ih =>
    obtain ⟨t,ran,grown,none⟩ := ih first.of_append
    rw [run,runFrom,foldlM_one_more,pending_append]
    show ∃ t, (run cmp calls >>= fun t => perform cmp t call) = .ok t ∧ _
    rw [ran]
    cases call with
    | insert pKey pVal =>
      obtain ⟨next,ran',grown'⟩ := grown.insert (pKey,pVal)
      exact ⟨next,ran',grown',none⟩
    | clear =>
      rw [pending_cleared calls (first calls [] rfl)] at grown ⊢
      have empty := grown.linked
      refine ⟨t,?_,grown,rfl⟩
      cases t with
      | mk heap root =>
      cases root with
      | none => rfl
      | some a => cases empty

-- A tree whose root was deleted.
def Broken (t : CBsTree κ υ) : Prop := ∃ a, t.root = some a ∧ t.heap.cells a = none

theorem clear_deletes {heap next : Heap (CBsTreeNode κ υ)} {a : Nat} (ran : CBsTreeNode.clear n heap (some a) = .ok next) :
    next.cells a = none := by
  cases n with
  | zero => cases ran
  | succ n =>
    obtain ⟨_,_,ran⟩ := sequence_returned ran
    obtain ⟨_,_,ran⟩ := sequence_returned ran
    obtain ⟨_,_,ran⟩ := sequence_returned ran
    obtain ⟨_,_,ran⟩ := sequence_returned ran
    obtain ⟨-,rfl⟩ := Heap.delete_returned ran
    exact Heap.put_same _ _ _

theorem clear_breaks {t next : CBsTree κ υ} (inhabited : t.root ≠ none) (ran : t.clear = .ok next) : Broken next := by
  obtain ⟨a,root⟩ := Option.ne_none_iff_exists'.mp inhabited
  obtain ⟨heap,cleared,ran⟩ := sequence_returned ran
  cases ran
  rw [root] at cleared
  exact ⟨a,root,clear_deletes cleared⟩

theorem clear_gone {heap next : Heap (CBsTreeNode κ υ)} {a : Nat} (gone : heap.cells a = none) :
    CBsTreeNode.clear n heap (some a) ≠ .ok next := by
  intro ran
  cases n with
  | zero => cases ran
  | succ n =>
    rw [CBsTreeNode.clear,Heap.read_gone gone] at ran
    cases ran

theorem insertLoop_gone {heap next : Heap (CBsTreeNode κ υ)} {a : Nat} (pKey : κ) (pVal : υ) (gone : heap.cells a = none) :
    insertLoop cmp pKey pVal n heap (some a) ≠ .ok next := by
  intro ran
  cases n with
  | zero => cases ran
  | succ n =>
    rw [insertLoop,Heap.read_gone gone] at ran
    cases ran

-- The first thing that every call does then is to read the root.
theorem Broken.faults {t next : CBsTree κ υ} (broken : Broken t) (call : Call κ υ) : perform cmp t call ≠ .ok next := by
  obtain ⟨a,root,gone⟩ := broken
  intro ran
  cases call with
  | insert pKey pVal =>
    rw [perform,CBsTree.insert,root] at ran
    obtain ⟨heap,inserted,-⟩ := sequence_returned ran
    exact insertLoop_gone pKey pVal gone inserted
  | clear =>
    rw [perform,CBsTree.clear,root] at ran
    obtain ⟨heap,cleared,-⟩ := sequence_returned ran
    exact clear_gone gone cleared

theorem insert_root {t next : CBsTree κ υ} (pKey : κ) (pVal : υ) (ran : t.insert cmp pKey pVal = .ok next) :
    next.root ≠ none := by
  unfold CBsTree.insert at ran
  split at ran
  · cases ran
    exact Option.some_ne_none _
  · rename_i inhabited
    obtain ⟨heap,-,ran⟩ := sequence_returned ran
    cases ran
    exact fun none => inhabited (Option.isNone_iff_eq_none.mpr none)

-- No call sets the root back to NULL.
theorem inserted_root {t : CBsTree κ υ} {calls : List (Call κ υ)} {call : Call κ υ} (ran : run cmp calls = .ok t)
    (member : call ∈ calls) (inserts : call ≠ .clear) : t.root ≠ none := by
  induction calls using List.reverseRecOn generalizing t with
  | nil => cases member
  | append_singleton calls last ih =>
    rw [run,runFrom,foldlM_one_more] at ran
    obtain ⟨before,earlier,step⟩ := sequence_returned ran
    cases last with
    | insert pKey pVal => exact insert_root pKey pVal step
    | clear =>
      obtain ⟨heap,-,same⟩ := sequence_returned step
      cases same
      rcases List.mem_append.mp member with old | new
      · have still := ih earlier old
        exact still
      · exact absurd (List.mem_singleton.mp new) inserts

variable [BEq κ]

-- Clear leaves the pointer to the root it has deleted, so the tree is usable, down to its
-- destructor, exactly while no clear has followed an insert.
theorem lives_once_iff (comparison : Comparison cmp) (calls : List (Call κ υ)) : LivesOnce cmp calls ↔ ClearsFirst calls := by
  constructor
  · rintro ⟨⟨t,last,ran,destroyed,-⟩,-⟩ earlier later rfl call member
    by_contra inserts
    rw [run,runFrom,List.foldlM_append] at ran
    obtain ⟨first,ran,rest⟩ := sequence_returned ran
    obtain ⟨second,cleared,rest⟩ := sequence_returned rest
    have broken := clear_breaks (inserted_root ran member inserts) cleared
    cases later with
    | nil =>
      cases rest
      have stuck : perform cmp t .clear ≠ .ok last := broken.faults .clear
      exact stuck destroyed
    | cons next later =>
      obtain ⟨third,step,-⟩ := sequence_returned rest
      exact broken.faults next step
  · intro first
    obtain ⟨t,ran,grown,-⟩ := run_grown calls first
    obtain ⟨last,destroyed,deleted⟩ := grown.clear
    refine ⟨⟨t,last,ran,destroyed,deleted⟩,?_⟩
    rintro earlier later rfl
    obtain ⟨t,ran,grown,none⟩ := run_grown earlier first.of_append
    refine ⟨t,ran,?_⟩
    intro pKey
    rw [grown.search comparison,none]
    cases (pending earlier 0 []).2.findIdx? fun x => x.1 == pKey with
    | none => rfl
    | some i => simp

theorem lives_once_cleared_first : LivesOnce (fun k l : Nat => decide (k < l)) [.clear,.insert 5 0] := by
  refine (lives_once_iff natural_comparison [.clear,.insert 5 0]).mpr ?_
  intro earlier later same call member
  rcases earlier with _ | ⟨first,_ | ⟨second,rest⟩⟩
  · cases member
  · cases (List.cons.inj (List.cons.inj same).2).1
  · have tail := (List.cons.inj (List.cons.inj same).2).2
    exact absurd tail.symm (List.append_ne_nil_of_right_ne_nil _ (List.cons_ne_nil _ _))

theorem cleared_tree_destroyed : ¬ LivesOnce (fun k l : Nat => decide (k < l)) [.insert 5 0,.clear] := by
  rintro ⟨⟨t,last,ran,destroyed,-⟩,-⟩
  cases Except.ok.inj ran
  cases destroyed

end CBsTree

end PcNetwork.Libbase
