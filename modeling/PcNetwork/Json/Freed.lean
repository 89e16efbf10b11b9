import PcNetwork.Json.Nodes

namespace PcNetwork.Json
open JsonHeap Forest

variable {m x y : JsonHeap} {nodes : Heap JsonNode} {f kids left right : Forest Label} {parent first : Option Nat} {a b n : Nat} {d : Label}
  {papers : Heap Text} {v w : JsonNode} {spots inks : List Nat} {after : Nat → JsonNode → JsonNode}

def look (cells : Nat → Option JsonNode) (a : Nat) : Option (Links × Label) := (cells a).map fun v => (v.toLinks,⟨v.type,v.text⟩)

-- The texts of the nodes.
def blocks (f : Forest Label) : List Nat := f.collect fun _ d => d.text.toList

@[simp] theorem blocks_nil : blocks .nil = [] := rfl

@[simp] theorem blocks_node (a : Nat) (d : Label) (kids rest : Forest Label) :
    blocks (.node a d kids rest) = d.text.toList ++ (blocks kids ++ blocks rest) := rfl

@[simp] theorem blocks_append (f g : Forest Label) : blocks (f.append g) = blocks f ++ blocks g := collect_append _ f g

theorem look_cell {l : Links} (seen : look nodes.cells a = some (l,d)) : nodes.cells a = some ⟨l,d.type,d.text⟩ := by
  obtain ⟨v,here,same⟩ := Option.map_eq_some_iff.mp seen
  cases same
  exact here

theorem there_cell {next previous : Option Nat} (linked : Linked (look nodes.cells) parent previous first next f) (inside : a ∈ f.places) :
    ∃ w, nodes.cells a = some w := by
  obtain ⟨w,seen⟩ := linked.there inside
  obtain ⟨v,here,-⟩ := Option.map_eq_some_iff.mp seen
  exact ⟨v,here⟩

-- What becomes of a node that has lost a sibling or a child.
def severed (parent previous next : Option Nat) (a b : Nat) (w : JsonNode) : JsonNode :=
  {w with toLinks := w.toLinks.sever parent previous next a b}

theorem severed_other {previous next : Option Nat} (up : parent ≠ some b) (left : previous ≠ some b) (right : next ≠ some b)
    (a : Nat) (w : JsonNode) : severed parent previous next a b w = w := by
  rw [severed,Links.sever_other up left right]

theorem unlinkSiblings_mends (here : nodes.cells a = some v) (apart : v.previous ≠ some a) (left : ∀ e, v.previous = some e → ∃ w, nodes.cells e = some w)
    (right : ∀ e, v.next = some e → ∃ w, nodes.cells e = some w) :
    ∃ result, unlinkSiblings nodes a = .ok result ∧ result.count = nodes.count ∧ result.deleted = nodes.deleted ∧
      ∀ b, result.cells b = (nodes.cells b).map (severed none v.previous v.next a b) := by
  obtain ⟨middle,first,count,deleted,cells⟩ := Heap.modify_if left fun w => {w with next := v.next}
  have still : middle.cells a = some v := by rw [cells a,here,Option.map_some,if_neg apart]
  have right' : ∀ e, v.next = some e → ∃ w, middle.cells e = some w := by
    intro e next
    obtain ⟨w,there⟩ := right e next
    exact ⟨_,by rw [cells e,there]; rfl⟩
  obtain ⟨result,second,count',deleted',cells'⟩ := Heap.modify_if right' fun w => {w with previous := v.previous}
  refine ⟨result,?_,count'.trans count,deleted'.trans deleted,fun b => ?_⟩
  · have again : middle.read (some a) = .ok v := Heap.read_ok still
    simp only [unlinkSiblings,Heap.read_ok here,bind,Except.bind]
    cases previous : v.previous with
    | none =>
      rw [previous] at first second
      cases first
      simp only [pure,Except.pure,again,Option.isSome_none,Bool.false_eq_true,false_and,if_false]
      exact second
    | some e =>
      rw [previous] at first second
      simp only [Option.isSome_some,if_true,true_and] at first ⊢
      cases next : v.next with
      | none =>
        rw [next] at first second
        simp only [Option.isSome_none,Bool.false_eq_true,if_false,first,again,next]
        exact second
      | some g =>
        rw [next] at first second
        simp only [Option.isSome_some,if_true,first,again,next,previous]
        exact second
  · rw [cells' b,cells b,Option.map_map]
    refine congrArg (Option.map · _) (funext fun w => ?_)
    simp only [Function.comp,severed,Links.sever,reduceCtorEq,false_and,if_false]
    split <;> split <;> rfl

theorem unlinkParent_mends (here : nodes.cells a = some v) (up : ∀ e, v.parent = some e → ∃ w, nodes.cells e = some w) :
    ∃ result, unlinkParent nodes a = .ok result ∧ result.count = nodes.count ∧ result.deleted = nodes.deleted ∧
      ∀ b, result.cells b = (nodes.cells b).map fun w => if v.parent = some b ∧ w.child = some a then {w with child := v.next} else w := by
  simp only [unlinkParent,Heap.read_ok here,bind,Except.bind]
  cases parent : v.parent with
  | none => exact ⟨nodes,rfl,rfl,rfl,fun b => by simp⟩
  | some e =>
    obtain ⟨w,there⟩ := up e parent
    simp only [Option.isSome_some,if_true,Heap.read_ok there]
    by_cases first : w.child = some a
    · rw [if_pos first]
      have only (b : Nat) : ((nodes.cells b).map fun w => if some e = some b then {w with child := v.next} else w) =
          (nodes.cells b).map fun w => if some e = some b ∧ w.child = some a then {w with child := v.next} else w := by
        by_cases same : e = b
        · subst same
          simp [there,first]
        · simp [same]
      obtain ⟨result,ran,count,deleted,cells⟩ := Heap.modify_map there fun w => {w with child := v.next}
      cases next : v.next with
      | some g =>
        rw [next] at ran cells only
        exact ⟨result,ran,count,deleted,fun b => (cells b).trans (only b)⟩
      | none =>
        rw [next] at ran cells only
        cases previous : v.previous with
        | none => exact ⟨result,ran,count,deleted,fun b => (cells b).trans (only b)⟩
        | some g =>
          have behind : result.cells e = some {w with child := none} := by rw [cells e,there,Option.map_some,if_pos rfl]
          obtain ⟨last,again,count',deleted',cells'⟩ := Heap.modify_map behind fun w => {w with child := none}
          refine ⟨last,?_,count'.trans count,deleted'.trans deleted,fun b => ?_⟩
          · simp only [Option.isSome_some,if_true,ran,Option.isSome_none,Bool.false_eq_true,if_false]
            exact again
          · rw [cells' b,cells b,Option.map_map,← only b]
            refine congrArg (Option.map · _) (funext fun w => ?_)
            simp only [Function.comp]
            split <;> rfl
    · refine ⟨nodes,if_neg first,rfl,rfl,fun b => ?_⟩
      by_cases same : e = b
      · subst same
        simp [there,first]
      · simp [same]

-- Both together take the node out.
theorem unlink_mends (here : nodes.cells a = some v) (left : ∀ e, v.previous = some e → a ≠ e ∧ ∃ w, nodes.cells e = some w)
    (right : ∀ e, v.next = some e → a ≠ e ∧ ∃ w, nodes.cells e = some w) (up : ∀ e, v.parent = some e → a ≠ e ∧ ∃ w, nodes.cells e = some w) :
    ∃ result, (unlinkSiblings nodes a >>= fun nodes => unlinkParent nodes a) = .ok result ∧ result.count = nodes.count ∧
      result.deleted = nodes.deleted ∧ ∀ b, result.cells b = (nodes.cells b).map (severed v.parent v.previous v.next a b) := by
  have before : v.previous ≠ some a := fun same => (left a same).1 rfl
  have behind : v.next ≠ some a := fun same => (right a same).1 rfl
  obtain ⟨middle,first,count,deleted,cells⟩ :=
    unlinkSiblings_mends here before (fun e same => (left e same).2) fun e same => (right e same).2
  have still : middle.cells a = some v := by
    have top : (none : Option Nat) ≠ some a := (Option.some_ne_none a).symm
    rw [cells a,here,Option.map_some,severed_other top before behind]
  obtain ⟨result,second,count',deleted',cells'⟩ := unlinkParent_mends still fun e same => by
    obtain ⟨-,w,there⟩ := up e same
    exact ⟨_,by rw [cells e,there]; rfl⟩
  refine ⟨result,?_,count'.trans count,deleted'.trans deleted,fun b => ?_⟩
  · rw [first]
    exact second
  · rw [cells' b,cells b,Option.map_map]
    refine congrArg (Option.map · _) (funext fun w => ?_)
    simp only [Function.comp,severed,Links.sever,reduceCtorEq,false_and,if_false]
    split <;> rfl

-- What freeing has done: every node and text of the freed trees is deleted once, and of the
-- others only those that were linked to them have changed.
structure Freed (m x : JsonHeap) (spots inks : List Nat) (after : Nat → JsonNode → JsonNode) : Prop where
  count : x.nodes.count = m.nodes.count
  written : x.texts.count = m.texts.count
  deleted : ∃ gone, gone.Perm spots ∧ x.nodes.deleted = m.nodes.deleted ++ gone
  torn : ∃ gone, gone.Perm inks ∧ x.texts.deleted = m.texts.deleted ++ gone
  gone : ∀ b ∈ spots, x.nodes.cells b = none
  kept : ∀ b ∉ spots, x.nodes.cells b = (m.nodes.cells b).map (after b)
  blank : ∀ t ∈ inks, x.texts.cells t = none
  legible : ∀ t ∉ inks, x.texts.cells t = m.texts.cells t

theorem Freed.refl (m : JsonHeap) : Freed m m [] [] fun _ w => w :=
  ⟨rfl,rfl,⟨[],.nil,(List.append_nil _).symm⟩,⟨[],.nil,(List.append_nil _).symm⟩,List.forall_mem_nil _,fun _ _ => by simp,
    List.forall_mem_nil _,fun _ _ => rfl⟩

theorem Freed.trans {later : List Nat} {ink : List Nat} {more : Nat → JsonNode → JsonNode} (first : Freed m x spots inks after)
    (second : Freed x y later ink more) : Freed m y (later ++ spots) (ink ++ inks) fun b w => more b (after b w) := by
  obtain ⟨gone,perm,deleted⟩ := first.deleted
  obtain ⟨gone',perm',deleted'⟩ := second.deleted
  obtain ⟨torn,inked,tears⟩ := first.torn
  obtain ⟨torn',inked',tears'⟩ := second.torn
  refine ⟨second.count.trans first.count,second.written.trans first.written,⟨gone ++ gone',?_,?_⟩,⟨torn ++ torn',?_,?_⟩,
    fun b member => ?_,fun b outside => ?_,fun t member => ?_,fun t outside => ?_⟩
  · exact (perm.append perm').trans List.perm_append_comm
  · rw [deleted',deleted,List.append_assoc]
  · exact (inked.append inked').trans List.perm_append_comm
  · rw [tears',tears,List.append_assoc]
  · by_cases now : b ∈ later
    · exact second.gone b now
    · rw [second.kept b now,first.gone b ((List.mem_append.mp member).resolve_left now)]
      rfl
  · rw [second.kept b fun now => outside (List.mem_append_left _ now),first.kept b fun old => outside (List.mem_append_right _ old),
      Option.map_map]
    rfl
  · by_cases now : t ∈ ink
    · exact second.blank t now
    · rw [second.legible t now]
      exact first.blank t ((List.mem_append.mp member).resolve_left now)
  · rw [second.legible t fun now => outside (List.mem_append_left _ now),first.legible t fun old => outside (List.mem_append_right _ old)]

theorem Freed.same {more : Nat → JsonNode → JsonNode} (freed : Freed m x spots inks after)
    (agrees : ∀ b ∉ spots, ∀ w, m.nodes.cells b = some w → after b w = more b w) : Freed m x spots inks more := by
  refine ⟨freed.count,freed.written,freed.deleted,freed.torn,freed.gone,fun b outside => ?_,freed.blank,freed.legible⟩
  rw [freed.kept b outside]
  cases here : m.nodes.cells b with
  | none => rfl
  | some w => exact congrArg some (agrees b outside w here)

-- The texts of some trees lie in memory, each for itself.
structure Inked (m : JsonHeap) (inks : List Nat) : Prop where
  apart : inks.Nodup
  live : ∀ t ∈ inks, ∃ s, m.texts.cells t = some s

theorem Inked.part {more : List Nat} (inked : Inked m (more ++ inks)) : Inked m more ∧ Inked m inks ∧ ∀ t ∈ more, t ∉ inks := by
  obtain ⟨first,second,between⟩ := List.nodup_append.mp inked.apart
  exact ⟨⟨first,fun t member => inked.live t (List.mem_append_left _ member)⟩,
    ⟨second,fun t member => inked.live t (List.mem_append_right _ member)⟩,fun t member other => between t member t other rfl⟩

theorem Inked.still {more : List Nat} (inked : Inked m more) (freed : Freed m x spots inks after) (apart : ∀ t ∈ more, t ∉ inks) :
    Inked x more :=
  ⟨inked.apart,fun t member => by rw [freed.legible t (apart t member)]; exact inked.live t member⟩

-- Where the last child goes, its siblings stay and the parent may lose its first child.
def childless (parent b : Nat) (w : JsonNode) : JsonNode := if b = parent then {w with child := none} else w

def FreesValue (n : Nat) : Prop :=
  ∀ (m : JsonHeap) (parent first : Option Nat) (left kids right : Forest Label) (a : Nat) (d : Label),
    Linked (look m.nodes.cells) parent none first none (left.append (.node a d kids right)) →
    (left.append (.node a d kids right)).places.Nodup → (∀ b ∈ (left.append (.node a d kids right)).places, parent ≠ some b) →
    (∀ q, parent = some q → ∃ w, m.nodes.cells q = some w) → Inked m (d.text.toList ++ blocks kids) → 2*kids.places.length+1 ≤ n →
    ∃ x, freeValue n m (some a) = .ok x ∧
      Freed m x (a :: kids.places) (d.text.toList ++ blocks kids) (severed parent (left.final none) right.first a)

def FreesChildren (n : Nat) : Prop :=
  ∀ (m : JsonHeap) (first : Option Nat) (kids : Forest Label) (parent : Nat) (v : JsonNode),
    Linked (look m.nodes.cells) (some parent) none first none kids → kids.places.Nodup → parent ∉ kids.places →
    m.nodes.cells parent = some v → v.child = kids.first → Inked m (blocks kids) → 2*kids.places.length ≤ n →
    ∃ x, freeChildren n m (kids.final none) = .ok x ∧ Freed m x kids.places (blocks kids) (childless parent)

theorem freeValue_runs (here : m.nodes.cells a = some v) (frees : (if v.child.isSome then freeChildren n m v.childEnd else pure m) = .ok x)
    (taken : (unlinkSiblings x.nodes a >>= fun nodes => unlinkParent nodes a) = .ok nodes) (there : nodes.cells a = some w)
    (tears : x.texts.delete w.text = .ok papers) :
    freeValue (n+1) m (some a) = .ok ⟨{nodes with cells := Heap.put nodes.cells a none,deleted := nodes.deleted ++ [a]},papers⟩ := by
  obtain ⟨middle,first,second⟩ := sequence_returned taken
  simp only [freeValue,Heap.read_ok here,bind,Except.bind,frees,first,second,Heap.read_ok there,tears,Heap.delete_ok there]
  rfl

theorem Freed.childless (here : m.nodes.cells a = some v) (none : v.child = none) : Freed m m [] [] (childless a) := by
  refine (Freed.refl m).same fun b _ w there => ?_
  unfold Json.childless
  split
  · rename_i same
    subst same
    cases here.symm.trans there
    cases v with
    | mk links type text =>
      cases links
      cases none
      rfl
  · rfl

theorem text_torn (live : ∀ t, d.text = some t → ∃ s, m.texts.cells t = some s) : ∃ papers, m.texts.delete d.text = .ok papers ∧
    papers.count = m.texts.count ∧ papers.deleted = m.texts.deleted ++ d.text.toList ∧ (∀ t ∈ d.text.toList, papers.cells t = none) ∧
    ∀ t ∉ d.text.toList, papers.cells t = m.texts.cells t := by
  cases text : d.text with
  | none => exact ⟨m.texts,rfl,rfl,(List.append_nil _).symm,List.forall_mem_nil _,fun _ _ => rfl⟩
  | some t =>
    obtain ⟨s,here⟩ := live t text
    refine ⟨_,Heap.delete_ok here,rfl,rfl,fun b member => ?_,fun b outside => Heap.put_other fun same => outside (by simp [same])⟩
    rw [show b = t by simpa using member]
    exact Heap.put_same _ _ _

-- The node itself goes when its children are gone.
theorem node_freed {previous next : Option Nat} (count : nodes.count = m.nodes.count) (deleted : nodes.deleted = m.nodes.deleted)
    (cells : ∀ b, nodes.cells b = (m.nodes.cells b).map (severed parent previous next a b))
    (live : ∀ t, d.text = some t → ∃ s, m.texts.cells t = some s) : ∃ papers, m.texts.delete d.text = .ok papers ∧
    Freed m ⟨{nodes with cells := Heap.put nodes.cells a none,deleted := nodes.deleted ++ [a]},papers⟩ [a] d.text.toList
      (severed parent previous next a) := by
  obtain ⟨papers,tears,written,torn,blank,legible⟩ := text_torn live
  refine ⟨papers,tears,count,written,⟨[a],.refl _,congrArg (· ++ [a]) deleted⟩,⟨d.text.toList,.refl _,torn⟩,fun b member => ?_,
    fun b outside => ?_,blank,legible⟩
  · rw [List.mem_singleton.mp member]
    exact Heap.put_same _ _ _
  · exact (Heap.put_other fun same => outside (by simp [same])).trans (cells b)

theorem freeValue_step (children : FreesChildren n) : FreesValue (n+1) := by
  intro m parent first left kids right a d linked apart above up inked enough
  obtain ⟨child,childEnd,seen,-,below,ends⟩ := linked.among
  have here := look_cell seen
  rw [places_append,places_node] at apart above
  obtain ⟨-,rest,between⟩ := List.nodup_append.mp apart
  obtain ⟨alone,beside,kidsApart,-,across⟩ := apart_node (d := d) rest
  obtain ⟨own,inner,separate⟩ := inked.part
  have kidsFreed : ∃ x, (if child.isSome then freeChildren n m childEnd else pure m) = .ok x ∧
      Freed m x kids.places (blocks kids) (childless a) := by
    cases kids with
    | nil =>
      cases below
      exact ⟨m,rfl,Freed.childless here rfl⟩
    | node b e more others =>
      cases below.begins
      rw [ends node_filled]
      exact children m _ _ a _ below kidsApart alone here rfl inner (by omega)
  obtain ⟨x,ran,freed⟩ := kidsFreed
  have still {b : Nat} (outside : b ∉ kids.places) (cell : ∃ w, m.nodes.cells b = some w) : ∃ w, x.nodes.cells b = some w := by
    obtain ⟨w,cell⟩ := cell
    exact ⟨_,by rw [freed.kept b outside,cell]; rfl⟩
  have now : x.nodes.cells a = some ⟨⟨parent,none,childEnd,left.final none,right.first⟩,d.type,d.text⟩ := by
    rw [freed.kept a alone,here]
    simp [childless]
  have leftward : ∀ e, left.final none = some e → a ≠ e ∧ ∃ w, x.nodes.cells e = some w := by
    intro e last
    have member := final_inside last
    exact ⟨fun same => between e member e (by simp [same]) rfl,
      still (fun inside => between e member e (by simp [inside]) rfl) (there_cell linked (by simp [member]))⟩
  have rightward : ∀ e, right.first = some e → a ≠ e ∧ ∃ w, x.nodes.cells e = some w := by
    intro e start
    have member := first_inside start
    exact ⟨fun same => beside (same ▸ member),still (fun inside => across e inside member) (there_cell linked (by simp [member]))⟩
  have upward : ∀ e, parent = some e → a ≠ e ∧ ∃ w, x.nodes.cells e = some w := by
    intro e top
    exact ⟨fun same => above a (by simp) (same ▸ top),still (fun inside => above e (by simp [inside]) top) (up e top)⟩
  obtain ⟨result,taken,count,deleted,cells⟩ := unlink_mends now leftward rightward upward
  have there := (cells a).trans (congrArg (Option.map _) now)
  have live : ∀ t, d.text = some t → ∃ s, x.texts.cells t = some s := by
    intro t text
    have member : t ∈ d.text.toList := by simp [text]
    exact (own.still freed separate).live t member
  obtain ⟨papers,tears,single⟩ := node_freed count deleted cells live
  refine ⟨_,freeValue_runs here ran taken there tears,(freed.trans single).same fun b outside w _ => ?_⟩
  rw [childless,if_neg fun same => outside (by simp [same])]

theorem look_map {cells : Nat → Option JsonNode} {previous next : Option Nat}
    (mended : cells b = (nodes.cells b).map (severed parent previous next a b)) :
    look cells b = (look nodes.cells b).map fun w => (w.1.sever parent previous next a b,w.2) := by
  rw [look,look,mended,Option.map_map,Option.map_map]
  rfl

theorem freeChildren_step (value : FreesValue n) (children : FreesChildren n) : FreesChildren (n+1) := by
  intro m first kids parent v linked apart outside here child inked enough
  rcases from_right kids with rfl | ⟨front,i,d,within,rfl⟩
  · exact ⟨m,rfl,Freed.childless here child⟩
  · have above : ∀ b ∈ (front.append (.node i d within .nil)).places, some parent ≠ some b := by
      intro b member same
      cases same
      exact outside member
    obtain ⟨_,_,seen,-,-,-⟩ := linked.among
    have last : (front.append (.node i d within .nil)).final none = some i := final_append front _ none
    have written : blocks (front.append (.node i d within .nil)) = blocks front ++ (d.text.toList ++ blocks within) := by
      simp
    have placed : (front.append (.node i d within .nil)).places = front.places ++ i :: within.places := by
      simp
    rw [written] at inked ⊢
    rw [placed] at enough outside above ⊢
    obtain ⟨ahead,own,separate⟩ := inked.part
    rw [List.length_append,List.length_cons] at enough
    obtain ⟨x,ran,freed⟩ := value m _ _ front within .nil i d linked apart (by rw [placed]; exact above)
      (fun q same => ⟨v,by cases same; exact here⟩) own (by omega)
    obtain ⟨frontApart,-,between⟩ := List.nodup_append.mp (placed ▸ apart)
    have left {b : Nat} (member : b ∈ front.places) : b ∉ i :: within.places := fun other => between b member b other rfl
    have unlinked : Linked (look x.nodes.cells) (some parent) none (front.first.or none) none (front.append .nil) := by
      refine linked.without apart (fun b member => ?_) fun b member => ?_
      · rw [places_nil,List.append_nil] at member
        exact above b (List.mem_append_left _ member)
      · rw [places_nil,List.append_nil] at member
        exact look_map (freed.kept b (left member))
    rw [append_nil] at unlinked
    have now : x.nodes.cells parent = some (severed (some parent) (front.final none) none i parent v) := by
      rw [freed.kept parent fun member => outside (List.mem_append_right _ member),here]
      rfl
    have begins : (severed (some parent) (front.final none) none i parent v).child = front.first := by
      rw [severed,Links.sever,child]
      cases front with
      | nil => simp [Forest.append,Forest.first]
      | node b e inner more =>
        have other : b ≠ i := between b (by simp) i (by simp)
        simp [Forest.append,Forest.first,other]
    obtain ⟨y,ran',freed'⟩ := children x _ front parent _ unlinked frontApart (fun member => outside (List.mem_append_left _ member)) now
      begins (ahead.still freed separate) (by omega)
    refine ⟨y,?_,(freed.trans freed').same fun b elsewhere w _ => ?_⟩
    · rw [last]
      simp only [freeChildren,Heap.read_ok (look_cell seen),ran,bind,Except.bind]
      exact ran'
    · have right : (Forest.nil : Forest Label).first ≠ some b := (Option.some_ne_none b).symm
      have left : front.final none ≠ some b := fun last => elsewhere (List.mem_append_left _ (final_inside last))
      by_cases top : b = parent
      · subst top
        simp [childless,severed,Links.sever,left,right]
      · rw [severed_other (fun same => top (Option.some.inj same).symm) left right]

theorem frees (n : Nat) : FreesValue n ∧ FreesChildren n := by
  induction n with
  | zero =>
    refine ⟨fun m parent first left kids right a d _ _ _ _ _ enough => absurd enough (by omega),?_⟩
    intro m first kids parent v linked apart outside here child inked enough
    cases kids with
    | nil => exact ⟨m,rfl,Freed.childless here child⟩
    | node a d kids rest =>
      rw [places_node,List.length_cons] at enough
      omega
  | succ n ih => exact ⟨freeValue_step ih.2,freeChildren_step ih.1 ih.2⟩

-- A child goes from among its siblings.
theorem freeValue_links {l : Links} {p q : Nat} {e : Label} {within : Forest Label} (seen : look m.nodes.cells q = some (l,d))
    (below : Linked (look m.nodes.cells) (some q) none l.child none (left.append (.node p e within right)))
    (alone : q ∉ (left.append (.node p e within right)).places) (apart : (left.append (.node p e within right)).places.Nodup)
    (inked : Inked m (e.text.toList ++ blocks within)) (enough : 2*within.places.length+1 ≤ n) :
    ∃ x, freeValue n m (some p) = .ok x ∧
      Freed m x (p :: within.places) (e.text.toList ++ blocks within) (severed (some q) (left.final none) right.first p) ∧
      look x.nodes.cells q = some ({l with child := left.first.or right.first},d) ∧
      Linked (look x.nodes.cells) (some q) none (left.first.or right.first) none (left.append right) ∧
      ∀ b, b ≠ q → b ∉ (left.append (.node p e within right)).places → x.nodes.cells b = m.nodes.cells b := by
  have split := cut_places left p e within right
  obtain ⟨-,-,between⟩ := List.nodup_append.mp (split.nodup_iff.mp apart)
  have inside {b : Nat} (here : b ∈ (left.append right).places) : b ∈ (left.append (.node p e within right)).places :=
    split.symm.subset (List.mem_append_right _ here)
  have gone {b : Nat} (here : b ∈ (left.append right).places) : b ∉ p :: within.places := fun other => between b other b here rfl
  have above {b : Nat} (here : b ∈ (left.append (.node p e within right)).places) : some q ≠ some b := by
    rintro ⟨⟩
    exact alone here
  have before {b : Nat} (last : left.final none = some b) : b ∈ (left.append right).places := by
    rw [places_append]
    exact List.mem_append_left _ (final_inside last)
  have behind {b : Nat} (first : right.first = some b) : b ∈ (left.append right).places := by
    rw [places_append]
    exact List.mem_append_right _ (first_inside first)
  obtain ⟨x,ran,freed⟩ := (frees n).1 m (some q) _ left within right p e below apart (fun _ => above)
    (fun b same => ⟨_,by cases same; exact look_cell seen⟩) inked enough
  refine ⟨x,ran,freed,?_,?_,fun b other beyond => ?_⟩
  · have up : q ∉ p :: within.places := fun here => alone (split.symm.subset (List.mem_append_left _ here))
    have last : left.final none ≠ some q := fun last => alone (inside (before last))
    have first : right.first ≠ some q := fun first => alone (inside (behind first))
    have start : l.child = (left.append (.node p e within right)).first := below.begins.trans (Option.or_none ..)
    have lone : p ∉ left.places := fun here => gone (by simp [here]) List.mem_cons_self
    have begins := start ▸ cut_first lone e within right
    rw [look,freed.kept q up,look_cell seen]
    simp [severed,Links.sever,first,last,begins]
  · exact below.without apart (fun b here => above (inside (by simpa using here))) fun b here =>
      look_map (freed.kept b (gone (by simpa using here)))
  · rw [freed.kept b fun here => beyond (split.symm.subset (List.mem_append_left _ here))]
    cases m.nodes.cells b with
    | none => rfl
    | some w =>
      exact congrArg some (severed_other (fun same => other (Option.some.inj same).symm) (fun last => beyond (inside (before last)))
        (fun first => beyond (inside (behind first))) p w)

end PcNetwork.Json
