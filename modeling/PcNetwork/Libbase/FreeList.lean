import PcNetwork.Library.Heap
import PcNetwork.Library.Chain

namespace PcNetwork.Libbase

-- The data in front of the pointer has the address of the node, and is not looked at.
structure FreeNode where
  nextNode : Option Nat

structure FreeList where
  heap : Heap FreeNode
  freeList : Option Nat

namespace FreeList

def new : FreeList := ⟨.empty,none⟩

-- The head is asked for again under the lock; between the two questions of one call
-- nothing changes here.
def allocElem (f : FreeList) : Except HeapFault (Nat × FreeList) :=
  match f.freeList with
  | some p => do
    let node ← f.heap.read (some p)
    return (p,{f with freeList := node.nextNode})
  | none => .ok (f.heap.count,{f with heap := f.heap.alloc ⟨none⟩})

def freeElem (f : FreeList) (pData : Option Nat) : Except HeapFault FreeList :=
  if pData.isNone then .ok f
  else do
    let heap ← f.heap.modify pData fun _ => ⟨f.freeList⟩
    return ⟨heap,pData⟩

-- The pointer t to the node itself is kept and not used.
def clearLoop : Nat → Heap FreeNode → Option Nat → Except HeapFault (Heap FreeNode)
  | _,heap,none => .ok heap
  | 0,_,some _ => .error .endless
  | n+1,heap,some p => do
    let node ← heap.read (some p)
    let heap ← heap.delete node.nextNode
    clearLoop n heap node.nextNode

def clear (f : FreeList) : Except HeapFault FreeList := do
  let heap ← clearLoop f.heap.count f.heap f.freeList
  return ⟨heap,none⟩

inductive Call where
  | alloc
  | free (pData : Option Nat)

-- A free list with the elements that are in the hands of its callers.
structure Users where
  list : FreeList
  live : List Nat

def Users.step (u : Users) : Call → Except HeapFault Users
  | .alloc => do
    let given ← u.list.allocElem
    return ⟨given.2,given.1 :: u.live⟩
  | .free none => do
    let list ← u.list.freeElem none
    return {u with list}
  | .free (some a) => do
    let list ← u.list.freeElem (some a)
    return ⟨list,u.live.erase a⟩

def run (calls : List Call) : Except HeapFault Users := calls.foldlM Users.step ⟨new,[]⟩

-- Whatever is given back is an element that its caller has.
def Proper (calls : List Call) : Prop :=
  ∀ earlier a later u, calls = earlier ++ .free (some a) :: later → run earlier = .ok u → a ∈ u.live

-- The elements that were given back and not handed out again.
def idle (calls : List Call) : Nat :=
  calls.foldl (fun n call => match call with
    | .alloc => n-1
    | .free none => n
    | .free (some _) => n+1) 0

def links (heap : Heap FreeNode) (a : Nat) : Option (Option Nat) := (heap.cells a).map FreeNode.nextNode

-- Every element is either in the chain or in use, and in one place only.
structure Apart (u : Users) (chain : List Nat) : Prop where
  linked : Chain (links u.list.heap) u.list.freeList chain
  apart : (chain ++ u.live).Nodup
  known : ∀ a ∈ chain ++ u.live, (∃ node, u.list.heap.cells a = some node) ∧ a < u.list.heap.count
  deleted : u.list.heap.deleted = []

variable {u : Users} {chain : List Nat}

theorem new_apart : Apart ⟨new,[]⟩ [] := ⟨.nil,.nil,List.forall_mem_nil _,rfl⟩

-- What is handed out was not in use.
theorem alloc_apart (apart : Apart u chain) :
    ∃ a list, u.list.allocElem = .ok (a,list) ∧ a ∉ u.live ∧ Apart ⟨list,a :: u.live⟩ chain.tail := by
  obtain ⟨linked,distinct,known,deleted⟩ := apart
  obtain ⟨⟨heap,p⟩,live⟩ := u
  cases linked with
  | nil =>
    have fresh : heap.count ∉ live := fun member => Nat.lt_irrefl _ (known _ member).2
    refine ⟨_,_,rfl,fresh,.nil,List.nodup_cons.mpr ⟨fresh,distinct⟩,?_,deleted⟩
    refine List.forall_mem_cons.mpr ⟨⟨⟨_,Heap.put_same _ _ _⟩,Nat.lt_succ_self _⟩,?_⟩
    intro a member
    obtain ⟨⟨node,here⟩,low⟩ := known a member
    exact ⟨⟨node,(Heap.put_other (Nat.ne_of_lt low)).trans here⟩,Nat.lt_succ_of_lt low⟩
  | @cons a next places here rest =>
    obtain ⟨alone,distinct'⟩ := List.nodup_cons.mp distinct
    obtain ⟨node,cell,rfl⟩ := Option.map_eq_some_iff.mp here
    refine ⟨a,⟨heap,node.nextNode⟩,?_,fun member => alone (List.mem_append_right _ member),rest,?_,?_,deleted⟩
    · rw [allocElem]
      dsimp only
      rw [Heap.read_ok cell]
      rfl
    · exact List.nodup_middle.mpr distinct
    · intro b member
      exact known b (List.perm_middle.mem_iff.mp member)

theorem free_apart (apart : Apart u chain) (live : a ∈ u.live) :
    ∃ list, u.list.freeElem (some a) = .ok list ∧ Apart ⟨list,u.live.erase a⟩ (a :: chain) := by
  obtain ⟨linked,distinct,known,deleted⟩ := apart
  have moved : (chain ++ u.live).Perm (a :: chain ++ u.live.erase a) :=
    ((List.perm_cons_erase live).append_left chain).trans List.perm_middle
  have distinct' := moved.nodup_iff.mp distinct
  obtain ⟨⟨node,here⟩,-⟩ := known a (List.mem_append_right _ live)
  have outside : a ∉ chain := fun member => (List.nodup_cons.mp distinct').1 (List.mem_append_left _ member)
  refine ⟨⟨{u.list.heap with cells := Heap.put u.list.heap.cells a (some ⟨u.list.freeList⟩)},some a⟩,?_,?_,distinct',?_,deleted⟩
  · rw [freeElem,Heap.modify_ok here]
    rfl
  · refine .cons (congrArg (Option.map FreeNode.nextNode) (Heap.put_same _ _ _)) (linked.frame ?_)
    intro b member
    exact congrArg (Option.map FreeNode.nextNode) (Heap.put_other_than _ _ _ outside b member)
  · intro b member
    obtain ⟨there,low⟩ := known b (moved.mem_iff.mpr member)
    refine ⟨?_,low⟩
    by_cases same : b = a
    · exact ⟨_,by rw [same]; exact Heap.put_same _ _ _⟩
    · obtain ⟨old,there⟩ := there
      exact ⟨old,(Heap.put_other same).trans there⟩

theorem Proper.of_append {earlier later : List Call} (proper : Proper (earlier ++ later)) : Proper earlier := by
  intro before a after u same
  refine proper before a (after ++ later) u ?_
  rw [same,List.append_assoc]
  rfl

theorem run_apart (calls : List Call) (proper : Proper calls) :
    ∃ u chain, run calls = .ok u ∧ Apart u chain ∧ chain.length = idle calls := by
  induction calls using List.reverseRecOn with
  | nil => exact ⟨⟨new,[]⟩,[],rfl,new_apart,rfl⟩
  | append_singleton calls call ih =>
    obtain ⟨u,chain,ran,apart,length⟩ := ih proper.of_append
    rw [run,foldlM_one_more,idle,List.foldl_append,← idle,← length]
    show ∃ u chain, (run calls >>= fun u => u.step call) = .ok u ∧ _
    rw [ran]
    cases call with
    | alloc =>
      obtain ⟨a,list,given,-,apart'⟩ := alloc_apart apart
      refine ⟨⟨list,a :: u.live⟩,chain.tail,?_,apart',List.length_tail⟩
      show (u.list.allocElem >>= _) = _
      rw [given]
      rfl
    | free pData =>
      cases pData with
      | none => exact ⟨u,chain,rfl,apart,rfl⟩
      | some a =>
        obtain ⟨list,taken,apart'⟩ := free_apart apart (proper calls a [] u rfl ran)
        refine ⟨⟨list,u.live.erase a⟩,a :: chain,?_,apart',rfl⟩
        show (u.list.freeElem (some a) >>= _) = _
        rw [taken]
        rfl

-- What clear leaves of a chain: it deletes the node behind the one it looks at, and then
-- looks at that one.
theorem clearLoop_chain {heap next : Heap FreeNode} {p : Option Nat} (linked : Chain (links heap) p chain)
    (ran : clearLoop n heap p = .ok next) : chain.tail = [] ∧ next.deleted = heap.deleted := by
  cases linked with
  | nil =>
    cases n <;> cases ran <;> exact ⟨rfl,rfl⟩
  | cons here rest =>
    obtain ⟨node,cell,rfl⟩ := Option.map_eq_some_iff.mp here
    cases n with
    | zero => cases ran
    | succ n =>
      rw [clearLoop,Heap.read_ok cell] at ran
      replace ran : (heap.delete node.nextNode >>= fun heap => clearLoop n heap node.nextNode) = Except.ok next := ran
      generalize node.nextNode = q at rest ran
      obtain ⟨left,deletes,ran⟩ := sequence_returned ran
      cases rest with
      | nil =>
        cases deletes
        cases n <;> cases ran <;> exact ⟨rfl,rfl⟩
      | cons there _ =>
        obtain ⟨-,rfl⟩ := Heap.delete_returned deletes
        cases n with
        | zero => cases ran
        | succ n =>
          rw [clearLoop,Heap.read_gone (Heap.put_same _ _ _)] at ran
          cases ran

-- Up to the destructor every call returns, what is handed out was not in use, and the
-- chain ends and is apart from what is in use. The destructor then deletes every node of
-- the chain once and reads none that is gone.
structure TearsDown (calls : List Call) : Prop where
  alloc : ∀ earlier later, calls = earlier ++ .alloc :: later → ∃ u a list, run earlier = .ok u ∧
    u.list.allocElem = .ok (a,list) ∧ a ∉ u.live
  chain : ∀ earlier later, calls = earlier ++ later → ∃ u chain, run earlier = .ok u ∧
    Chain (links u.list.heap) u.list.freeList chain ∧ chain.Nodup ∧ ∀ a ∈ chain, a ∉ u.live
  clear : ∃ u chain last, run calls = .ok u ∧ Chain (links u.list.heap) u.list.freeList chain ∧
    u.list.clear = .ok last ∧ last.heap.deleted.Perm chain

-- Only the destructor goes wrong, and it does so whenever there is a node to delete.
theorem torn_down_iff (calls : List Call) (proper : Proper calls) : TearsDown calls ↔ idle calls = 0 := by
  obtain ⟨u,chain,ran,apart,length⟩ := run_apart calls proper
  rw [← length]
  constructor
  · rintro ⟨-,-,u',chain',last,ran',linked,cleared,deleted⟩
    cases ran.symm.trans ran'
    cases linked.unique apart.linked
    obtain ⟨heap,looped,same⟩ := sequence_returned cleared
    cases same
    obtain ⟨-,kept⟩ := clearLoop_chain linked looped
    have nothing : heap.deleted = [] := kept.trans apart.deleted
    rw [← deleted.length_eq]
    exact congrArg List.length nothing
  · intro none
    cases List.eq_nil_of_length_eq_zero none
    refine ⟨?_,?_,?_⟩
    · rintro earlier later rfl
      obtain ⟨u,chain,ran,apart,-⟩ := run_apart earlier proper.of_append
      obtain ⟨a,list,given,fresh,-⟩ := alloc_apart apart
      exact ⟨u,a,list,ran,given,fresh⟩
    · rintro earlier later rfl
      obtain ⟨u,chain,ran,apart,-⟩ := run_apart earlier proper.of_append
      refine ⟨u,chain,ran,apart.linked,apart.linked.nodup,?_⟩
      intro a inside live
      exact (List.nodup_append.mp apart.apart).2.2 a inside a live rfl
    · refine ⟨u,[],⟨u.list.heap,Option.none⟩,ran,apart.linked,?_,?_⟩
      · have linked := apart.linked
        rw [clear]
        generalize u.list.freeList = p at linked
        cases linked with
        | nil => cases u.list.heap.count <;> rfl
      · exact .of_eq apart.deleted

theorem torn_down_in_use : TearsDown [.alloc,.free (some 0),.alloc] := by
  refine (torn_down_iff [.alloc,.free (some 0),.alloc] ?_).mpr rfl
  intro earlier a later u same ran
  rcases earlier with _ | ⟨first,_ | ⟨second,_ | ⟨third,rest⟩⟩⟩
  · cases (List.cons.inj same).1
  · obtain ⟨rfl,tail⟩ := List.cons.inj same
    cases (List.cons.inj tail).1
    cases ran
    exact List.mem_singleton.mpr rfl
  · obtain ⟨rfl,tail⟩ := List.cons.inj same
    cases (List.cons.inj (List.cons.inj tail).2).1
  · have tail := (List.cons.inj (List.cons.inj (List.cons.inj same).2).2).2
    exact absurd tail.symm (List.append_ne_nil_of_right_ne_nil _ (List.cons_ne_nil _ _))

theorem free_chain_left : ¬ TearsDown [.alloc,.free (some 0)] := by
  rintro ⟨-,-,u,chain,last,ran,linked,cleared,deleted⟩
  cases Except.ok.inj ran
  cases Except.ok.inj cleared
  cases linked with
  | cons _ _ => cases deleted.length_eq

end FreeList
end PcNetwork.Libbase
