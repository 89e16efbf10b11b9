import PcNetwork.Json.Trees

namespace PcNetwork.Json
open JsonHeap Forest

variable {m : JsonHeap} {t u : Trees} {nodes : Heap JsonNode} {parent child p : Nat} {v c : JsonNode} {d : Label} {f g kids new : Forest Label}
  {forests front back : List (Forest Label)} {cells cells' : Nat → Option JsonNode} {text : Text}

-- What becomes of a node when the child has come behind the children of its parent.
def joined (parent child : Nat) (v : JsonNode) (b : Nat) (w : JsonNode) : JsonNode :=
  if b = child then {w with parent := some parent,previous := if v.child.isSome then v.childEnd else w.previous,next := none}
  else if b = parent then {w with child := if v.child.isSome then w.child else some child,childEnd := some child}
  else if v.child.isSome ∧ v.childEnd = some b then {w with next := some child}
  else w

theorem linkChild_joins (here : nodes.cells parent = some v) (there : nodes.cells child = some c) (apart : parent ≠ child)
    (last : v.child.isSome → ∃ e w, v.childEnd = some e ∧ nodes.cells e = some w ∧ e ≠ parent ∧ e ≠ child) :
    ∃ result, linkChild nodes parent child = .ok result ∧ result.count = nodes.count ∧ result.deleted = nodes.deleted ∧
      ∀ b, result.cells b = (nodes.cells b).map (joined parent child v b) := by
  obtain ⟨one,ran1,count1,deleted1,cells1⟩ := Heap.modify_map there fun w => {w with parent := some parent}
  have top : one.cells parent = some v := by
    rw [cells1 parent,here,Option.map_some,if_neg fun same => apart (Option.some.inj same).symm]
  cases first : v.child with
  | none =>
    obtain ⟨two,ran2,count2,deleted2,cells2⟩ := Heap.modify_map top fun w => {w with child := some child,childEnd := some child}
    have below : ∃ w, two.cells child = some w := ⟨_,by rw [cells2,cells1,there]; rfl⟩
    obtain ⟨_,below⟩ := below
    obtain ⟨three,ran3,count3,deleted3,cells3⟩ := Heap.modify_map below fun w => {w with next := none}
    refine ⟨three,?_,count3.trans (count2.trans count1),deleted3.trans (deleted2.trans deleted1),fun b => ?_⟩
    · simp only [linkChild,bind,Except.bind,ran1,Heap.read_ok top,first,Option.isSome_none,Bool.false_eq_true,if_false,ran2]
      exact ran3
    · rw [cells3,cells2,cells1,Option.map_map,Option.map_map]
      refine congrArg (Option.map · _) (funext fun w => ?_)
      simp only [Function.comp,joined,first,Option.some.injEq,eq_comm (a := b)]
      by_cases isChild : child = b
      · subst isChild
        simp [apart]
      · by_cases isParent : parent = b <;> simp [isChild,isParent]
  | some g =>
    obtain ⟨e,w,ends,live,other,other'⟩ := last (by rw [first]; rfl)
    have still {h k : Heap JsonNode} {q : Nat} {f : Nat → JsonNode → JsonNode} (here : ∃ w, h.cells q = some w)
        (cells : ∀ b, k.cells b = (h.cells b).map (f b)) : ∃ w, k.cells q = some w := by
      obtain ⟨w,cell⟩ := here
      exact ⟨_,by rw [cells,cell]; rfl⟩
    obtain ⟨_,below1⟩ := still ⟨c,there⟩ cells1
    obtain ⟨two,ran2,count2,deleted2,cells2⟩ := Heap.modify_map below1 fun w => {w with previous := v.childEnd}
    obtain ⟨_,beside2⟩ := still (still ⟨w,live⟩ cells1) cells2
    obtain ⟨three,ran3,count3,deleted3,cells3⟩ := Heap.modify_map beside2 fun w => {w with next := some child}
    obtain ⟨_,top3⟩ := still (still ⟨v,top⟩ cells2) cells3
    obtain ⟨four,ran4,count4,deleted4,cells4⟩ := Heap.modify_map top3 fun w => {w with childEnd := some child}
    obtain ⟨_,below4⟩ := still (still (still ⟨_,below1⟩ cells2) cells3) cells4
    obtain ⟨five,ran5,count5,deleted5,cells5⟩ := Heap.modify_map below4 fun w => {w with next := none}
    refine ⟨five,?_,count5.trans (count4.trans (count3.trans (count2.trans count1))),
      deleted5.trans (deleted4.trans (deleted3.trans (deleted2.trans deleted1))),fun b => ?_⟩
    · rw [ends] at ran2
      simp only [linkChild,bind,Except.bind,ran1,Heap.read_ok top,first,Option.isSome_some,if_true,ends,ran2,ran3,ran4]
      exact ran5
    · rw [cells5,cells4,cells3,cells2,cells1,Option.map_map,Option.map_map,Option.map_map,Option.map_map]
      refine congrArg (Option.map · _) (funext fun w => ?_)
      simp only [Function.comp,joined,first,ends,Option.some.injEq,eq_comm (a := b)]
      by_cases isChild : child = b
      · subst isChild
        simp [apart,other']
      · by_cases isParent : parent = b
        · subst isParent
          simp [isChild,other]
        · by_cases isLast : e = b <;> simp [isChild,isParent,isLast]

theorem root_split (root : t.root p = some f) :
    ∃ front back, t.forests = front ++ f :: back ∧ t.others p = front ++ back ∧ f.first = some p := by
  obtain ⟨hit,front,back,split,before⟩ := List.find?_eq_some_iff_append.mp root
  refine ⟨front,back,split,?_,of_decide_eq_true hit⟩
  rw [Trees.others,split,List.eraseP_append_right _ fun g member => by simpa using before g member]
  exact congrArg (front ++ ·) (List.eraseP_cons_of_pos (p := fun g : Forest Label => g.first = some p) hit)

theorem found_split (held : Trees.found forests p = some (d,kids)) :
    ∃ front g back, forests = front ++ g :: back ∧ g.found p = some (d,kids) := by
  obtain ⟨front,g,back,split,found,-⟩ := List.findSome?_eq_some_iff.mp held
  exact ⟨front,g,back,split,found⟩

theorem replaced (apart : ((front ++ g :: back).flatMap places).Nodup) (inside : p ∈ g.places) (new : Forest Label) :
    (front ++ g :: back).map (·.replace p new) = front ++ g.replace p new :: back := by
  have still (l : List (Forest Label)) (among : ∀ f ∈ l, f ∈ front ++ back) : l.map (·.replace p new) = l :=
    (List.map_congr_left fun f member =>
      replace_outside (fun other => elsewhere apart f (among f member) p other inside) new).trans (List.map_id' l)
  rw [List.map_append,List.map_cons,still front fun _ => List.mem_append_left _,still back fun _ => List.mem_append_right _]

theorem root_replace (a : Nat) (d : Label) (kids : Forest Label) (p : Nat) (new : Forest Label) :
    ∃ more, (Forest.node a d kids .nil).replace p new = .node a d more .nil := by
  rw [Forest.replace]
  split
  · exact ⟨_,rfl⟩
  · split <;> exact ⟨_,rfl⟩

-- The same tree with other children below one of its nodes.
theorem Rooted.replace {l : Links} (rooted : Rooted cells g) (l' : Links) (apart : g.places.Nodup) (found : g.found p = some (d,kids))
    (was : look cells p = some (l,d)) (now : look cells' p = some ({l with child := l'.child,childEnd := l'.childEnd},d))
    (below : Linked (look cells') (some p) none l'.child none new) (last : new ≠ .nil → l'.childEnd = new.final none)
    (same : ∀ a ∈ g.places, a ≠ p → a ∉ kids.places → cells' a = cells a) : Rooted cells' (g.replace p new) := by
  obtain ⟨a,e,within,rfl,linked⟩ := rooted
  have linked' := linked.replace apart found was now below last fun b member other outside =>
    congrArg (Option.map _) (same b member other outside)
  obtain ⟨more,shape⟩ := root_replace a e within p new
  exact ⟨a,e,more,shape,shape ▸ linked'⟩

-- A tree that moves below a node of another one takes along what it holds.
theorem moved_collect (give : Nat → Label → List Nat) {left right : List (Forest Label)} (others : front ++ back = left ++ g :: right)
    (found : g.found p = some (d,kids)) :
    ((left ++ g.replace p (kids.append f) :: right).flatMap (·.collect give)).Perm ((front ++ f :: back).flatMap (·.collect give)) := by
  refine .trans ?_ (List.perm_middle.flatMap_right _).symm
  rw [List.flatMap_cons,others,List.perm_iff_count]
  intro x
  have moved := List.perm_iff_count.mp (replace_collect give found (kids.append f)) x
  simp only [collect_append,List.flatMap_append,List.flatMap_cons,List.count_append] at moved ⊢
  omega

theorem joined_other {b : Nat} {w : JsonNode} (apart : b ≠ parent) (apart' : b ≠ child) (last : v.child.isSome → v.childEnd ≠ some b) :
    joined parent child v b w = w := by
  rw [joined,if_neg apart',if_neg apart,if_neg fun both => last both.1 both.2]

-- A parent whose child_end has been deleted.
theorem linkChild_dangles (here : nodes.cells parent = some v) (there : nodes.cells child = some c) (apart : parent ≠ child)
    (full : v.child.isSome) (ends : v.childEnd = some p) (gone : nodes.cells p = none) : linkChild nodes parent child = .error .deleted := by
  obtain ⟨one,ran1,-,-,cells1⟩ := Heap.modify_map there fun w => {w with parent := some parent}
  have top : one.cells parent = some v := by
    rw [cells1 parent,here,Option.map_some,if_neg fun same => apart (Option.some.inj same).symm]
  have below : ∃ w, one.cells child = some w := ⟨_,by rw [cells1,there]; rfl⟩
  obtain ⟨_,below⟩ := below
  obtain ⟨two,ran2,-,-,cells2⟩ := Heap.modify_map below fun w => {w with previous := v.childEnd}
  have still : two.cells p = none := by rw [cells2,cells1,gone]; rfl
  rw [ends] at ran2
  simp only [linkChild,bind,Except.bind,ran1,Heap.read_ok top,full,if_true,ends,ran2,Heap.modify_gone still]

-- The child with its tree comes behind the children that the parent has.
theorem linkChild_links {l : Links} {e : Label} {within : Forest Label} (seen : look nodes.cells parent = some (l,d))
    (below : Linked (look nodes.cells) (some parent) none l.child none kids) (ends : kids ≠ .nil → l.childEnd = kids.final none)
    (tree : Linked (look nodes.cells) none none (some child) none (.node child e within .nil)) (alone : parent ∉ kids.places)
    (kidsApart : kids.places.Nodup) (own : (Forest.node child e within .nil).places.Nodup)
    (outside : ∀ b ∈ parent :: kids.places, b ∉ (Forest.node child e within .nil).places) :
    ∃ result, linkChild nodes parent child = .ok result ∧ result.count = nodes.count ∧ result.deleted = nodes.deleted ∧
      look result.cells parent = some ({l with child := kids.first.or (some child),childEnd := some child},d) ∧
      Linked (look result.cells) (some parent) none (kids.first.or (some child)) none (kids.append (.node child e within .nil)) ∧
      ∀ b, b ≠ parent → b ≠ child → b ∉ kids.places → result.cells b = nodes.cells b := by
  obtain ⟨outside',outside⟩ := List.forall_mem_cons.mp outside
  obtain ⟨alone',-,-,-,-⟩ := apart_node own
  cases tree with
  | @node _ _ _ _ _ _ _ childs childEnd after there ends' below' beside =>
  have apart : parent ≠ child := fun same => outside' (by simp [same])
  have start : l.child = kids.first := below.begins.trans (Option.or_none ..)
  have full (some : l.child.isSome) : kids ≠ .nil := by
    rintro rfl
    rw [start] at some
    cases some
  obtain ⟨result,ran,count,deleted,cells⟩ := linkChild_joins (look_cell seen) (look_cell there) apart fun some => by
    obtain ⟨e,inside,last⟩ := (final_mem kids none).resolve_left (full some)
    obtain ⟨w,live⟩ := there_cell below inside
    exact ⟨e,w,(ends (full some)).trans last,live,fun hit => alone (hit ▸ inside),fun hit => outside e inside (by simp [hit])⟩
  have still (b : Nat) (up : b ≠ parent) (down : b ≠ child) (other : kids.final none ≠ some b) : result.cells b = nodes.cells b := by
    rw [cells b]
    cases nodes.cells b with
    | none => rfl
    | some w => exact congrArg some (joined_other up down fun some same => other ((ends (full some)).symm.trans same))
  have now : look result.cells parent = some ({l with child := kids.first.or (some child),childEnd := some child},d) := by
    rw [look,cells parent,look_cell seen]
    cases kids <;> simp [joined,apart,start,Forest.first]
  have hung : look result.cells child = some (⟨some parent,childs,childEnd,kids.final none,none⟩,e) := by
    rw [look,cells child,look_cell there]
    cases kids with
    | nil => simp [joined,start,Forest.first,Forest.final]
    | node b c more others => simp [joined,start,Forest.first,ends node_filled]
  have chained : Linked (look result.cells) (some parent) none (kids.first.or (some child)) (some child) kids := by
    refine below.behind kidsApart (some child) (fun b inside other => ?_) fun b w c last was => ?_
    · exact congrArg (Option.map _) (still b (fun same => alone (same ▸ inside)) (fun same => outside b inside (by simp [same])) other)
    · have inside := final_inside last
      have up : b ≠ parent := fun same => alone (same ▸ inside)
      have down : b ≠ child := fun same => outside b inside (by simp [same])
      have behind : l.child.isSome ∧ l.childEnd = some b := by
        cases kids with
        | nil => cases inside
        | node => exact ⟨by rw [start]; rfl,(ends node_filled).trans last⟩
      rw [look,cells b,look_cell was]
      simp [joined,up,down,behind]
  have hanging : Linked (look result.cells) (some parent) (kids.final none) (some child) none (.node child e within .nil) := by
    refine .node hung ends' (below'.frame fun b inside => congrArg (Option.map _) (still b ?_ ?_ fun last => ?_)) .nil
    · rintro rfl
      exact outside' (by simp [inside])
    · rintro rfl
      exact alone' inside
    · exact outside b (final_inside last) (by simp [inside])
  exact ⟨result,ran,count,deleted,now,chained.append hanging,fun b up down beyond => still b up down fun last => beyond (final_inside last)⟩

theorem linkChild_kept (kept : Kept m t) (root : t.root child = some f) (held : Trees.found (t.others child) parent = some (d,kids)) :
    ∃ nodes, linkChild m.nodes parent child = .ok nodes ∧
      Kept {m with nodes} {t with forests := (t.others child).map (·.replace parent (kids.append f))} := by
  obtain ⟨front,back,split,others,first⟩ := root_split root
  obtain ⟨left,g,right,split',found⟩ := found_split held
  rw [others] at split' ⊢
  have every := kept.apart
  rw [split] at every
  have separate := elsewhere every
  have rest := (List.perm_middle.flatMap_right places).nodup_iff.mp every
  rw [List.flatMap_cons,split'] at rest
  obtain ⟨own,remaining,-⟩ := List.nodup_append.mp rest
  have separate' := elsewhere remaining
  have holding : g ∈ front ++ back := by simp [split']
  have whole := kept.rooted g (still_there split holding)
  obtain ⟨l,seen,below,ends⟩ := whole.found found
  have gApart : g.places.Nodup := (List.nodup_flatMap.mp remaining).1 g (by simp)
  obtain ⟨alone,kidsApart⟩ := List.nodup_cons.mp ((found_below found).nodup gApart)
  have inner {b : Nat} (inside : b ∈ parent :: kids.places) : b ∈ g.places := (found_below found).subset inside
  have top : parent ∈ g.places := found_mem found
  have outside {b : Nat} (inside : b ∈ g.places) : b ∉ f.places := separate g holding b inside
  obtain ⟨_,e,within,rfl,linked⟩ := kept.rooted f (by simp [split])
  cases first
  obtain ⟨nodes,ran,count,deleted,now,chained,still⟩ := linkChild_links seen below ends linked alone kidsApart own fun b inside =>
    outside (inner inside)
  have grafted : Rooted nodes.cells (g.replace parent (kids.append (.node child e within .nil))) := by
    refine whole.replace {l with child := kids.first.or (some child),childEnd := some child} gApart found seen now chained (fun _ => ?_)
      fun b inside up beyond => still b up (fun same => outside inside (by simp [same])) beyond
    rw [final_append]
    rfl
  refine ⟨nodes,ran,?_⟩
  rw [split',replaced remaining top]
  have nodesKept := kept.nodes
  have textsKept := kept.texts
  have textsLegible := kept.legible
  rw [split] at nodesKept textsKept textsLegible
  have texts := moved_collect (f := .node child e within .nil) (fun _ d => d.text.toList) split' found
  refine ⟨fun h present => ?_,count.trans kept.count,kept.written,?_,(texts.append_right _).trans textsKept,
    fun i ink => textsLegible i (texts.subset ink)⟩
  · rcases List.mem_cons.mp (List.perm_middle.subset present) with rfl | old
    · exact grafted
    · have among := still_there split' old
      refine (kept.rooted h (still_there split among)).frame fun b inside => still b ?_ ?_ fun other => ?_
      · exact fun same => separate' h old b inside (same ▸ top)
      · exact fun same => separate h among b inside (by simp [same])
      · exact separate' h old b inside (inner (List.mem_cons_of_mem _ other))
  · rw [deleted]
    exact ((moved_collect (fun a _ => [a]) split' found).append_right _).trans nodesKept

theorem mayHold_accepts (t : Trees) (d e : Label) (kids within : Forest Label) :
    mayHold d.type e.type within.first.isNone = accepts (t.value (d,kids)) (t.value (e,within)) := by
  cases within <;> rfl

-- What is in the other trees is not the root of this one.
theorem Kept.apart_root {node : Label × Forest Label} (kept : Kept m t) (root : t.root child = some f)
    (held : Trees.found (t.others child) parent = some node) : parent ≠ child := by
  obtain ⟨front,back,split,others,first⟩ := root_split root
  obtain ⟨left,g,right,split',found⟩ := found_split held
  have every := kept.apart
  rw [split] at every
  have holding : g ∈ front ++ back := by simp [← others,split']
  have outside := elsewhere every g holding parent (found_mem found)
  cases f with
  | nil => cases first
  | node a e within rest =>
    cases first
    rintro rfl
    exact outside (by simp)

theorem insertChild_kept (kept : Kept m t) {error : JsonError} (done : t.insertChild parent child = some (error,u)) :
    ∃ x, m.insertChild parent child = .ok (error,x) ∧ Kept x u := by
  simp only [Trees.insertChild,bind,Option.bind_eq_some_iff] at done
  obtain ⟨f,root,⟨e,within⟩,top,⟨d,kids⟩,held,done⟩ := done
  obtain ⟨left,g,right,split,found⟩ := found_split held
  have holding : g ∈ t.others child := by simp [split]
  obtain ⟨l,here,-⟩ := kept.seen (List.mem_of_mem_eraseP holding) found
  obtain ⟨l',there,first⟩ := kept.seen (List.mem_of_find?_eq_some root) top
  rw [JsonHeap.insertChild,if_neg (kept.apart_root root held)]
  simp only [bind,Except.bind,Heap.read_ok here,Heap.read_ok there,first,mayHold_accepts t d e kids within]
  by_cases held' : accepts (t.value (d,kids)) (t.value (e,within)) = true
  · rw [if_pos held'] at done
    cases done
    obtain ⟨nodes,ran,kept'⟩ := linkChild_kept kept root held
    exact ⟨_,by rw [if_pos held',ran]; rfl,kept'⟩
  · rw [if_neg held'] at done
    cases done
    exact ⟨m,if_neg held',kept⟩

theorem modify_type {f : JsonNode → JsonNode} {q : Option Nat} {next : Heap JsonNode} (ran : nodes.modify q f = .ok next)
    (same : ∀ v, (f v).type = v.type) (b : Nat) : (next.cells b).map (·.type) = (nodes.cells b).map (·.type) := by
  cases q with
  | none => cases ran
  | some a =>
    cases here : nodes.cells a with
    | none =>
      rw [Heap.modify_gone here] at ran
      cases ran
    | some v =>
      rw [Heap.modify_ok here] at ran
      cases ran
      by_cases there : b = a
      · subst there
        simp [here,same]
      · exact congrArg (Option.map _) (Heap.put_other there)

-- The links are changed, and no type.
theorem linkChild_type {next : Heap JsonNode} (ran : linkChild nodes parent child = .ok next) (b : Nat) :
    (next.cells b).map (·.type) = (nodes.cells b).map (·.type) := by
  obtain ⟨one,first,ran⟩ := sequence_returned ran
  obtain ⟨p,-,ran⟩ := sequence_returned ran
  obtain ⟨two,middle,last⟩ := sequence_returned ran
  refine (modify_type last (fun _ => rfl) b).trans (.trans ?_ (modify_type first (fun _ => rfl) b))
  split at middle
  · obtain ⟨three,second,middle⟩ := sequence_returned middle
    obtain ⟨four,third,fourth⟩ := sequence_returned middle
    exact (modify_type fourth (fun _ => rfl) b).trans ((modify_type third (fun _ => rfl) b).trans (modify_type second (fun _ => rfl) b))
  · exact modify_type middle (fun _ => rfl) b

theorem insertChild_type {error : JsonError} {x : JsonHeap} (ran : m.insertChild parent child = .ok (error,x)) (b : Nat) :
    (x.nodes.cells b).map (·.type) = (m.nodes.cells b).map (·.type) := by
  unfold JsonHeap.insertChild at ran
  split at ran
  · cases ran
  · obtain ⟨p,-,ran⟩ := sequence_returned ran
    obtain ⟨c,-,ran⟩ := sequence_returned ran
    split at ran
    · obtain ⟨next,linked,ran⟩ := sequence_returned ran
      cases ran
      exact linkChild_type linked b
    · cases ran
      rfl

-- An object takes a label.
theorem insertChild_label {error : JsonError} {v w : JsonNode} (kept : Kept m t) (done : t.insertChild parent child = some (error,u))
    (here : m.nodes.cells parent = some v) (object : v.type = .object) (there : m.nodes.cells child = some w) (label : w.type = .string) :
    error = .ok := by
  simp only [Trees.insertChild,bind,Option.bind_eq_some_iff] at done
  obtain ⟨f,root,⟨e,within⟩,top,⟨d,kids⟩,held,done⟩ := done
  obtain ⟨left,g,right,split,found⟩ := found_split held
  have holding : g ∈ t.others child := by simp [split]
  obtain ⟨l,seen,-⟩ := kept.seen (List.mem_of_mem_eraseP holding) found
  obtain ⟨l',seen',-⟩ := kept.seen (List.mem_of_find?_eq_some root) top
  cases here.symm.trans seen
  cases there.symm.trans seen'
  have taken : accepts (t.value (d,kids)) (t.value (e,within)) = true := by
    rw [← mayHold_accepts t d e kids within,show d.type = .object from object,show e.type = .string from label]
    rfl
  rw [if_pos taken] at done
  cases done
  rfl

-- A child that is not taken changes nothing.
theorem insertChild_refused {error : JsonError} (done : t.insertChild parent child = some (error,u)) (refused : error ≠ .ok) : u = t := by
  simp only [Trees.insertChild,bind,Option.bind_eq_some_iff] at done
  obtain ⟨f,-,top,-,node,-,done⟩ := done
  split at done
  · cases done
    exact absurd rfl refused
  · cases done
    rfl

-- A node with a text that has no children, and to which no pointer is left.
theorem Kept.lose {a i : Nat} {type : JsonType} (kept : Kept m {t with forests := forests ++ [.node a ⟨type,some i⟩ .nil .nil]}) :
    Kept m {t with forests,lost := t.lost ++ [(a,i)]} := by
  have moves {some gone lost : List Nat} {x n : Nat} (all : ((some ++ [x]) ++ (gone ++ lost)).Perm (List.range n)) :
      (some ++ (gone ++ (lost ++ [x]))).Perm (List.range n) := by
    refine .trans ?_ all
    rw [List.perm_iff_count]
    intro y
    simp only [List.count_append]
    omega
  refine ⟨fun f member => kept.rooted f (List.mem_append_left _ member),kept.count,kept.written,?_,?_,
    fun i ink => kept.legible i ?_⟩
  · simpa using moves (by simpa using kept.nodes)
  · simpa using moves (by simpa using kept.texts)
  · rw [List.flatMap_append]
    exact List.mem_append_left _ ink

theorem insertChild_lost {error : JsonError} (done : t.insertChild parent child = some (error,u)) : u.lost = t.lost := by
  simp only [Trees.insertChild,bind,Option.bind_eq_some_iff] at done
  obtain ⟨f,-,top,-,node,-,done⟩ := done
  split at done
  · cases done
    rfl
  · cases done
    rfl

-- A label is lost with an error, and only then.
theorem insertPairIntoObject_kept (kept : Kept m t) {error : JsonError}
    (done : t.insertPairIntoObject parent text child = some (error,u)) :
    (∃ x, m.insertPairIntoObject parent text child = .ok (error,x) ∧ Kept x u) ∧
      u.lost.length = t.lost.length+(if error = .ok then 0 else 1) := by
  simp only [Trees.insertPairIntoObject,bind,Option.bind_eq_some_iff] at done
  obtain ⟨⟨d,kids⟩,held,done⟩ := done
  obtain ⟨⟨object,apart⟩,done⟩ := Option.ite_none_right_eq_some.mp done
  obtain ⟨⟨first,middle⟩,labelled,done⟩ := Option.bind_eq_some_iff.mp done
  obtain ⟨front,g,back,split,found⟩ := found_split held
  obtain ⟨l,here,-⟩ := kept.seen (by simp [split]) found
  have labelled' := labelled
  rw [← kept.count] at labelled
  obtain ⟨y,ran,kept'⟩ := insertChild_kept (newText_kept kept .string (jsonEscape text)) labelled
  rw [JsonHeap.insertPairIntoObject,if_neg apart]
  simp only [bind,Except.bind,Heap.read_ok here,newString,ran]
  rw [if_pos object]
  by_cases taken : first = .ok
  · rw [if_pos taken,← kept.count] at done
    rw [if_pos taken]
    have still := insertChild_type ran
    have here' := still parent
    have there := still m.nodes.count
    have label : (m.newString text).2.nodes.cells m.nodes.count = some ⟨unlinked,.string,some m.texts.count⟩ := Heap.put_same ..
    have object' : (m.newString text).2.nodes.cells parent = some ⟨l,d.type,d.text⟩ := by
      refine (Heap.put_other ?_).trans here
      rintro rfl
      exact absurd (kept.early (f := g) (by simp [split]) (found_mem found)) (kept.count ▸ lt_irrefl _)
    obtain ⟨v,hereNow,type⟩ := Option.map_eq_some_iff.mp (here'.trans (congrArg _ object'))
    obtain ⟨w,thereNow,type'⟩ := Option.map_eq_some_iff.mp (there.trans (congrArg _ label))
    cases insertChild_label kept' done hereNow (type.trans object) thereNow type'
    refine ⟨insertChild_kept kept' done,?_⟩
    rw [insertChild_lost done,insertChild_lost labelled]
    rfl
  · rw [if_neg taken] at done
    cases done
    cases insertChild_refused labelled' taken
    refine ⟨⟨y,if_neg taken,Kept.lose kept'⟩,?_⟩
    rw [if_neg taken]
    exact List.length_append

end PcNetwork.Json
