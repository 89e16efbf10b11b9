import PcNetwork.Json.Freed

namespace PcNetwork.Json
open JsonHeap Forest

-- What the caller of the functions has to know: the trees, how many nodes there have been
-- and the texts written so far; and the labels that no pointer is left to, with their texts.
structure Trees where
  forests : List (Forest Label)
  count : Nat
  texts : List Text
  lost : List (Nat × Nat)

namespace Trees

def empty : Trees := ⟨[],0,[],[]⟩

def values (texts : List Text) : Forest Label → List JsonValue
  | .nil => []
  | .node _ d kids rest => .node d.type (d.text.bind (texts[·]?)) (values texts kids) :: values texts rest

def value (t : Trees) (node : Label × Forest Label) : JsonValue :=
  .node node.1.type (node.1.text.bind (t.texts[·]?)) (values t.texts node.2)

def found (forests : List (Forest Label)) (p : Nat) : Option (Label × Forest Label) := forests.findSome? (·.found p)

-- The trees without the one whose root is at a place.
def others (t : Trees) (p : Nat) : List (Forest Label) := t.forests.eraseP (·.first = some p)

def root (t : Trees) (p : Nat) : Option (Forest Label) := t.forests.find? (·.first = some p)

def newValue (t : Trees) (type : JsonType) : Trees :=
  {t with forests := t.forests ++ [.node t.count ⟨type,none⟩ .nil .nil],count := t.count+1}

def newText (t : Trees) (type : JsonType) (text : Text) : Trees :=
  {t with forests := t.forests ++ [.node t.count ⟨type,some t.texts.length⟩ .nil .nil],count := t.count+1,texts := t.texts ++ [text]}

-- The child is the root of another tree than the one the parent is in.
def insertChild (t : Trees) (parent child : Nat) : Option (JsonError × Trees) := do
  let tree ← t.root child
  let top ← tree.found child
  let (d,kids) ← found (t.others child) parent
  if accepts (t.value (d,kids)) (t.value top) then
    return (.ok,{t with forests := (t.others child).map (·.replace parent (kids.append tree))})
  else return (.badTreeStructure,t)

-- The parent is an object and not the value.
def insertPairIntoObject (t : Trees) (parent : Nat) (textLabel : Text) (value : Nat) : Option (JsonError × Trees) := do
  let (d,_) ← found t.forests parent
  if d.type = .object ∧ parent ≠ value then
    let (error,u) ← (t.newText .string (jsonEscape textLabel)).insertChild t.count value
    if error = .ok then u.insertChild parent t.count
    else return (error,{u with forests := t.forests,lost := t.lost ++ [(t.count,t.texts.length)]})
  else none

-- A root, or a node inside that is not the last one of several children.
def freeValue (t : Trees) (p : Nat) : Option Trees :=
  if (t.root p).isSome then some {t with forests := t.others p}
  else do
    let parent ← t.forests.findSome? (·.holder p)
    let (_,kids) ← found t.forests parent
    let (left,_,_,right) ← kids.cut p
    if right.first.isSome ∨ left.first.isNone then some {t with forests := t.forests.map (·.replace parent (left.append right))}
    else none

def call (t : Trees) : Call → Option (Answer × Trees)
  | .newValue type => some (.value t.count,t.newValue type)
  | .newString text => some (.value t.count,t.newText .string (jsonEscape text))
  | .newNumber text => some (.value t.count,t.newText .number text)
  | .insertChild parent child => (t.insertChild parent child).map fun (error,t) => (.error error,t)
  | .insertPairIntoObject parent textLabel value => (t.insertPairIntoObject parent textLabel value).map fun (error,t) => (.error error,t)
  | .freeValue value => (t.freeValue value).map fun t => (.done,t)

def run (t : Trees) : List Call → Option (List Answer × Trees)
  | [] => some ([],t)
  | call :: calls => do
    let (answer,t) ← t.call call
    let (answers,t) ← t.run calls
    return (answer :: answers,t)

end Trees

-- A whole tree in memory. Its root has no parent and no siblings.
def Rooted (cells : Nat → Option JsonNode) (f : Forest Label) : Prop :=
  ∃ a d kids, f = .node a d kids .nil ∧ Linked (look cells) none none (some a) none f

-- The trees as they lie in memory. Every node and every text is in one tree, or has been
-- deleted once, or is lost.
structure Kept (m : JsonHeap) (t : Trees) : Prop where
  rooted : ∀ f ∈ t.forests, Rooted m.nodes.cells f
  count : m.nodes.count = t.count
  written : m.texts.count = t.texts.length
  nodes : (t.forests.flatMap places ++ (m.nodes.deleted ++ t.lost.map Prod.fst)).Perm (List.range t.count)
  texts : (t.forests.flatMap blocks ++ (m.texts.deleted ++ t.lost.map Prod.snd)).Perm (List.range t.texts.length)
  legible : ∀ i ∈ t.forests.flatMap blocks, m.texts.cells i = t.texts[i]?

variable {m : JsonHeap} {t : Trees} {p n : Nat} {d : Label} {f g kids : Forest Label} {front back : List (Forest Label)}
  {cells cells' : Nat → Option JsonNode} {above previous first ink : Option Nat} {texts : List Text}

theorem Rooted.frame (rooted : Rooted cells f) (same : ∀ a ∈ f.places, cells' a = cells a) : Rooted cells' f := by
  obtain ⟨a,d,kids,rfl,linked⟩ := rooted
  exact ⟨a,d,kids,rfl,linked.frame fun b member => congrArg (Option.map _) (same b member)⟩

theorem Rooted.found (rooted : Rooted cells f) (found : f.found p = some (d,kids)) :
    ∃ l, look cells p = some (l,d) ∧ Linked (look cells) (some p) none l.child none kids ∧ (kids ≠ .nil → l.childEnd = kids.final none) := by
  obtain ⟨_,_,_,rfl,linked⟩ := rooted
  exact linked.found found

-- Two trees have no node in common.
theorem elsewhere (apart : ((front ++ g :: back).flatMap places).Nodup) : ∀ f ∈ front ++ back, ∀ b ∈ f.places, b ∉ g.places := by
  rw [List.flatMap_append,List.flatMap_cons] at apart
  obtain ⟨-,later,between⟩ := List.nodup_append.mp apart
  obtain ⟨-,-,between'⟩ := List.nodup_append.mp later
  intro f member b inside other
  rcases List.mem_append.mp member with first | last
  · exact between b (List.mem_flatMap.mpr ⟨f,first,inside⟩) b (List.mem_append_left _ other) rfl
  · exact between' b other b (List.mem_flatMap.mpr ⟨f,last,inside⟩) rfl

theorem still_there {forests : List (Forest Label)} (split : forests = front ++ g :: back) (member : f ∈ front ++ back) : f ∈ forests := by
  rw [split]
  exact List.perm_middle.symm.subset (List.mem_cons_of_mem _ member)

theorem Kept.apart (kept : Kept m t) : (t.forests.flatMap places).Nodup :=
  (List.nodup_append.mp (kept.nodes.nodup_iff.mpr List.nodup_range)).1

theorem Kept.separate (kept : Kept m t) : (t.forests.flatMap blocks).Nodup :=
  (List.nodup_append.mp (kept.texts.nodup_iff.mpr List.nodup_range)).1

theorem Kept.early (kept : Kept m t) (member : f ∈ t.forests) (inside : p ∈ f.places) : p < t.count :=
  List.mem_range.mp (kept.nodes.subset (List.mem_append_left _ (List.mem_flatMap.mpr ⟨f,member,inside⟩)))

theorem Kept.inked (kept : Kept m t) (member : f ∈ t.forests) : Inked m (blocks f) := by
  refine ⟨(List.nodup_flatMap.mp kept.separate).1 f member,fun i inside => ?_⟩
  have there : i ∈ t.forests.flatMap blocks := List.mem_flatMap.mpr ⟨f,member,inside⟩
  have bound : i < t.texts.length := List.mem_range.mp (kept.texts.subset (List.mem_append_left _ there))
  exact ⟨t.texts[i],(kept.legible i there).trans (List.getElem?_eq_getElem bound)⟩

theorem one_more {some gone : List Nat} {n : Nat} (all : (some ++ gone).Perm (List.range n)) :
    ((some ++ [n]) ++ gone).Perm (List.range (n+1)) := by
  rw [List.range_succ,List.append_assoc]
  calc some ++ ([n] ++ gone)
    _ |>.Perm (some ++ (gone ++ [n])) := List.perm_append_comm.append_left some
    _ = (some ++ gone) ++ [n] := (List.append_assoc ..).symm
    _ |>.Perm (List.range n ++ [n]) := all.append_right [n]

theorem kept_empty : Kept .empty .empty :=
  ⟨List.forall_mem_nil _,rfl,rfl,.nil,.nil,List.forall_mem_nil _⟩

-- A new node is a tree of its own.
theorem Kept.grown (kept : Kept m t) (type : JsonType) (ink : Option Nat) :
    ∀ f ∈ t.forests ++ [.node t.count ⟨type,ink⟩ .nil .nil], Rooted (m.nodes.alloc ⟨unlinked,type,ink⟩).cells f := by
  intro f member
  rcases List.mem_append.mp member with old | new
  · refine (kept.rooted f old).frame fun a inside => Heap.put_other ?_
    rw [kept.count]
    exact (kept.early old inside).ne
  · rw [List.mem_singleton.mp new]
    have here : look (m.nodes.alloc ⟨unlinked,type,ink⟩).cells t.count = some (unlinked,⟨type,ink⟩) := by
      rw [look,← kept.count]
      exact congrArg (Option.map _) (Heap.put_same ..)
    exact ⟨_,_,_,rfl,.node here (fun some => absurd rfl some) .nil .nil⟩

theorem newValue_kept (kept : Kept m t) (type : JsonType) : Kept (m.newValue type).2 (t.newValue type) := by
  refine ⟨kept.grown type none,congrArg (· + 1) kept.count,kept.written,?_,?_,?_⟩
  · simpa [Trees.newValue,JsonHeap.newValue,Heap.alloc] using one_more kept.nodes
  · simpa [Trees.newValue,JsonHeap.newValue] using kept.texts
  · simpa [Trees.newValue,JsonHeap.newValue] using kept.legible

theorem newText_kept (kept : Kept m t) (type : JsonType) (text : Text) :
    Kept ⟨m.nodes.alloc ⟨unlinked,type,some m.texts.count⟩,m.texts.alloc text⟩ (t.newText type text) := by
  rw [kept.written]
  refine ⟨kept.grown type _,congrArg (· + 1) kept.count,?_,?_,?_,?_⟩
  · simpa [Trees.newText,Heap.alloc] using kept.written
  · simpa [Trees.newText,Heap.alloc] using one_more kept.nodes
  · simpa [Trees.newText,Heap.alloc] using one_more kept.texts
  · intro i member
    have cases : i ∈ t.forests.flatMap blocks ∨ i = t.texts.length := by simpa [Trees.newText] using member
    rcases cases with old | rfl
    · have bound : i < t.texts.length := List.mem_range.mp (kept.texts.subset (List.mem_append_left _ old))
      calc Heap.put m.texts.cells m.texts.count (some text) i
        _ = m.texts.cells i := Heap.put_other (kept.written ▸ bound.ne)
        _ = t.texts[i]? := kept.legible i old
        _ = (t.texts ++ [text])[i]? := (List.getElem?_append_left bound).symm
    · simp [Trees.newText,Heap.alloc,← kept.written]

theorem Kept.seen (kept : Kept m t) (member : f ∈ t.forests) (found : f.found p = some (d,kids)) :
    ∃ l, m.nodes.cells p = some ⟨l,d.type,d.text⟩ ∧ l.child = kids.first := by
  obtain ⟨l,seen,below,-⟩ := (kept.rooted f member).found found
  exact ⟨l,look_cell seen,below.begins.trans (Option.or_none ..)⟩

theorem Kept.room (kept : Kept m t) (member : f ∈ t.forests) : f.places.length ≤ m.nodes.count := by
  have apart := (List.nodup_flatMap.mp kept.apart).1 f member
  have inside : f.places ⊆ List.range m.nodes.count := fun b here => List.mem_range.mpr (kept.count ▸ kept.early member here)
  simpa using apart.length_le_of_subset inside

theorem readText_kept (written : ∀ i ∈ ink.toList, ∃ s, m.texts.cells i = some s ∧ texts[i]? = some s) :
    m.readText ink = .ok (ink.bind (texts[·]?)) := by
  cases ink with
  | none => rfl
  | some i =>
    obtain ⟨s,here,same⟩ := written i (by simp)
    simp only [readText,Heap.read_ok here,bind,Except.bind,Option.bind,same]
    rfl

theorem readValues_linked (linked : Linked (look m.nodes.cells) above previous first none f)
    (written : ∀ i ∈ blocks f, ∃ s, m.texts.cells i = some s ∧ texts[i]? = some s) (enough : f.places.length ≤ n) :
    m.readValues n first = .ok (Trees.values texts f) := by
  induction f generalizing above previous first n with
  | nil =>
    cases linked
    cases n <;> rfl
  | node a d kids rest inner outer =>
    cases linked with
    | node here _ below beside =>
      rw [blocks_node] at written
      obtain ⟨own,written⟩ := List.forall_mem_append.mp written
      obtain ⟨within,behind⟩ := List.forall_mem_append.mp written
      rw [places_node,List.length_cons,List.length_append] at enough
      obtain ⟨n,rfl⟩ := Nat.exists_eq_add_of_lt (show 0 < n by omega)
      rw [Nat.zero_add,readValues,Heap.read_ok (look_cell here)]
      simp only [bind,Except.bind,readText_kept own,inner below within (by omega : kids.places.length ≤ n),
        outer beside behind (by omega : rest.places.length ≤ n)]
      rfl

theorem readValue_kept (kept : Kept m t) (member : f ∈ t.forests) (found : f.found p = some (d,kids)) :
    m.readValue p = .ok (t.value (d,kids)) := by
  have inside := (found_collect (fun _ d => d.text.toList) found).subset
  have written : ∀ i ∈ d.text.toList ++ blocks kids, ∃ s, m.texts.cells i = some s ∧ t.texts[i]? = some s := by
    intro i ink
    obtain ⟨s,here⟩ := (kept.inked member).live i (inside ink)
    exact ⟨s,here,(kept.legible i (List.mem_flatMap.mpr ⟨f,member,inside ink⟩)).symm.trans here⟩
  obtain ⟨own,below⟩ := List.forall_mem_append.mp written
  have enough := (found_below found).length_le.trans (kept.room member)
  obtain ⟨l,seen,within,-⟩ := (kept.rooted f member).found found
  simp only [readValue,Heap.read_ok (look_cell seen),bind,Except.bind,readText_kept own,
    readValues_linked within below (Nat.le_of_succ_le enough)]
  rfl

end PcNetwork.Json
