import PcNetwork.Json.Inserted

namespace PcNetwork.Json
open JsonHeap Forest

variable {m x : JsonHeap} {t u : Trees} {parent child p : Nat} {d : Label} {f g kids : Forest Label} {forests : List (Forest Label)}

-- What is freed has gone from the trees.
theorem Freed.keeps {spots inks : List Nat} {after : Nat → JsonNode → JsonNode} (freed : Freed m x spots inks after) (kept : Kept m t)
    (nodes : (forests.flatMap places ++ spots).Perm (t.forests.flatMap places))
    (texts : (forests.flatMap blocks ++ inks).Perm (t.forests.flatMap blocks)) (rooted : ∀ f ∈ forests, Rooted x.nodes.cells f) :
    Kept x {t with forests} := by
  have leaves {rest spots all old gone lost : List Nat} {n : Nat} (split : (rest ++ spots).Perm all) (goes : gone.Perm spots)
      (was : (all ++ (old ++ lost)).Perm (List.range n)) : (rest ++ ((old ++ gone) ++ lost)).Perm (List.range n) := by
    refine .trans ?_ was
    rw [List.perm_iff_count] at split goes ⊢
    intro x
    have split := split x
    have goes := goes x
    simp only [List.count_append] at split ⊢
    omega
  obtain ⟨gone,perm,deleted⟩ := freed.deleted
  obtain ⟨torn,perm',tears⟩ := freed.torn
  refine ⟨rooted,freed.count.trans kept.count,freed.written.trans kept.written,?_,?_,fun i ink => ?_⟩
  · rw [deleted]
    exact leaves nodes perm kept.nodes
  · rw [tears]
    exact leaves texts perm' kept.texts
  · obtain ⟨-,-,between⟩ := List.nodup_append.mp (texts.nodup_iff.mpr kept.separate)
    exact (freed.legible i fun other => between i ink i other rfl).trans (kept.legible i (texts.subset (List.mem_append_left _ ink)))

theorem root_freed (kept : Kept m t) (root : t.root p = some f) :
    ∃ x, m.jsonFreeValue p = .ok x ∧ Kept x {t with forests := t.others p} := by
  obtain ⟨front,back,split,others,first⟩ := root_split root
  have member : f ∈ t.forests := by simp [split]
  have room := kept.room member
  have inked := kept.inked member
  have every := kept.apart
  have apart := (List.nodup_flatMap.mp every).1 f member
  obtain ⟨_,d,kids,rfl,linked⟩ := kept.rooted f member
  cases first
  rw [places_node,places_nil,List.append_nil] at room
  rw [blocks_node,blocks_nil,List.append_nil] at inked
  obtain ⟨x,ran,freed⟩ := (frees (2*m.nodes.count)).1 m none _ .nil kids .nil p d linked apart
    (fun b _ => (Option.some_ne_none b).symm) (fun q same => absurd same.symm (Option.some_ne_none q)) inked
    (by simp only [List.length_cons] at room; omega)
  have sum (give : Forest Label → List Nat) (more : List Nat) (same : give (.node p d kids .nil) = more) :
      ((t.others p).flatMap give ++ more).Perm (t.forests.flatMap give) := by
    rw [others,split,← same]
    exact List.perm_append_comm.trans (List.perm_middle.flatMap_right give).symm
  refine ⟨x,ran,freed.keeps kept (sum places _ (by simp)) (sum blocks _ (by simp)) fun h present => ?_⟩
  rw [others] at present
  refine (kept.rooted h (still_there split present)).frame fun b inside => ?_
  rw [split] at every
  have outside := elsewhere every h present b inside
  have apart' : (none : Option Nat) ≠ some b := (Option.some_ne_none b).symm
  rw [freed.kept b (by simpa using outside)]
  cases m.nodes.cells b with
  | none => rfl
  | some w => exact congrArg some (severed_other apart' apart' apart' p w)

theorem sibling_freed {left within right : Forest Label} {e : Label} (kept : Kept m t) (member : g ∈ t.forests)
    (found : g.found parent = some (d,left.append (.node p e within right))) :
    ∃ l x, look m.nodes.cells parent = some (l,d) ∧ l.childEnd = (left.append (.node p e within right)).final none ∧
      m.jsonFreeValue p = .ok x ∧
      Freed m x (p :: within.places) (e.text.toList ++ blocks within) (severed (some parent) (left.final none) right.first p) ∧
      look x.nodes.cells parent = some ({l with child := left.first.or right.first},d) ∧
      Linked (look x.nodes.cells) (some parent) none (left.first.or right.first) none (left.append right) ∧
      ∀ b, b ≠ parent → b ∉ (left.append (.node p e within right)).places → x.nodes.cells b = m.nodes.cells b := by
  have inked := kept.inked member
  obtain ⟨l,seen,below,ends⟩ := (kept.rooted g member).found found
  obtain ⟨alone,apart⟩ := List.nodup_cons.mp ((found_below found).nodup ((List.nodup_flatMap.mp kept.apart).1 g member))
  have texts := cut_collect (fun _ d => d.text.toList) found
  have inked : Inked m (blocks (g.replace parent (left.append right)) ++ (e.text.toList ++ blocks within)) :=
    ⟨texts.nodup_iff.mpr inked.apart,fun i ink => inked.live i (texts.subset ink)⟩
  obtain ⟨-,inked,-⟩ := inked.part
  have few := (found_below found).length_le.trans (kept.room member)
  rw [List.length_cons,(cut_places left p e within right).length_eq,List.length_append,List.length_cons] at few
  have enough : 2*within.places.length+1 ≤ 2*m.nodes.count := by omega
  obtain ⟨x,ran,freed,now,without,still⟩ := freeValue_links seen below alone apart inked enough
  exact ⟨l,x,seen,ends append_filled,ran,freed,now,without,still⟩

-- A node that is not the last of several children.
theorem inner_freed {left within right : Forest Label} {e : Label} (kept : Kept m t) (held : Trees.found t.forests parent = some (d,kids))
    (cut : kids.cut p = some (left,e,within,right)) (last : right.first.isSome ∨ left.first.isNone) :
    ∃ x, m.jsonFreeValue p = .ok x ∧ Kept x {t with forests := t.forests.map (·.replace parent (left.append right))} := by
  obtain ⟨front,g,back,split,found⟩ := found_split held
  cases cut_append cut
  have every := kept.apart
  have member : g ∈ t.forests := by simp [split]
  have apart := (List.nodup_flatMap.mp every).1 g member
  rw [split] at every
  have separate := elsewhere every
  have top : parent ∈ g.places := found_mem found
  obtain ⟨l,x,seen,ends,ran,freed,now,without,still⟩ := sibling_freed kept member found
  have grafted : Rooted x.nodes.cells (g.replace parent (left.append right)) :=
    (kept.rooted g member).replace {l with child := left.first.or right.first} apart found seen now without
      (fun filled => ends.trans (cut_final last filled)) fun b _ => still b
  have sum (give : Nat → Label → List Nat) : ((front ++ g.replace parent (left.append right) :: back).flatMap (·.collect give) ++
      (give p e ++ within.collect give)).Perm (t.forests.flatMap (·.collect give)) := by
    rw [split,List.perm_iff_count]
    intro x
    have moved := List.perm_iff_count.mp (cut_collect give found) x
    simp only [List.flatMap_append,List.flatMap_cons,List.count_append] at moved ⊢
    omega
  rw [split,replaced every top]
  refine ⟨x,ran,freed.keeps kept (sum fun a _ => [a]) (sum fun _ d => d.text.toList) fun h present => ?_⟩
  rcases List.mem_cons.mp (List.perm_middle.subset present) with rfl | old
  · exact grafted
  · refine (kept.rooted h (still_there split old)).frame fun b here => still b ?_ fun other => separate h old b here (found_places found b other)
    rintro rfl
    exact separate h old _ here top

theorem freeValue_kept (kept : Kept m t) (done : t.freeValue p = some u) : ∃ x, m.jsonFreeValue p = .ok x ∧ Kept x u := by
  unfold Trees.freeValue at done
  split at done
  · rename_i top
    obtain ⟨f,root⟩ := Option.isSome_iff_exists.mp top
    cases done
    exact root_freed kept root
  · simp only [bind,Option.bind_eq_some_iff] at done
    obtain ⟨parent,-,⟨d,kids⟩,held,⟨left,e,within,right⟩,cut,done⟩ := done
    obtain ⟨last,same⟩ := Option.ite_none_right_eq_some.mp done
    cases same
    exact inner_freed kept held cut last

theorem freeValue_lost (done : t.freeValue p = some u) : u.lost = t.lost := by
  unfold Trees.freeValue at done
  split at done
  · cases done
    rfl
  · simp only [bind,Option.bind_eq_some_iff] at done
    obtain ⟨_,-,_,-,_,-,done⟩ := done
    obtain ⟨-,same⟩ := Option.ite_none_right_eq_some.mp done
    cases same
    rfl

theorem call_kept {call : Call} {answer : Answer} (kept : Kept m t) (done : t.call call = some (answer,u)) :
    (∃ x, m.call call = .ok (answer,x) ∧ Kept x u) ∧ u.lost.length = t.lost.length+(call.loses answer).toNat := by
  cases call with
  | newValue type =>
    cases done
    rw [← kept.count]
    exact ⟨⟨_,rfl,newValue_kept kept type⟩,rfl⟩
  | newString text =>
    cases done
    rw [← kept.count]
    exact ⟨⟨_,rfl,newText_kept kept .string (jsonEscape text)⟩,rfl⟩
  | newNumber text =>
    cases done
    rw [← kept.count]
    exact ⟨⟨_,rfl,newText_kept kept .number text⟩,rfl⟩
  | insertChild parent child =>
    obtain ⟨⟨error,_⟩,done,same⟩ := Option.map_eq_some_iff.mp done
    cases same
    obtain ⟨x,ran,kept'⟩ := insertChild_kept kept done
    exact ⟨⟨x,by rw [JsonHeap.call,ran]; rfl,kept'⟩,congrArg List.length (insertChild_lost done)⟩
  | insertPairIntoObject parent text value =>
    obtain ⟨⟨error,_⟩,done,same⟩ := Option.map_eq_some_iff.mp done
    cases same
    obtain ⟨⟨x,ran,kept'⟩,lost⟩ := insertPairIntoObject_kept kept done
    refine ⟨⟨x,by rw [JsonHeap.call,ran]; rfl,kept'⟩,?_⟩
    by_cases ok : error = .ok <;> simpa [Call.loses,ok] using lost
  | freeValue p =>
    obtain ⟨_,done,same⟩ := Option.map_eq_some_iff.mp done
    cases same
    obtain ⟨x,ran,kept'⟩ := freeValue_kept kept done
    exact ⟨⟨x,by rw [JsonHeap.call,ran]; rfl,kept'⟩,congrArg List.length (freeValue_lost done)⟩

theorem run_kept {calls : List Call} {answers : List Answer} (kept : Kept m t) (done : t.run calls = some (answers,u)) :
    (∃ x, m.run calls = .ok (answers,x) ∧ Kept x u) ∧
      u.lost.length = t.lost.length+(calls.zip answers).countP (fun c => c.1.loses c.2) := by
  induction calls generalizing m t answers with
  | nil =>
    cases done
    exact ⟨⟨m,rfl,kept⟩,rfl⟩
  | cons call calls ih =>
    simp only [Trees.run,bind,Option.bind_eq_some_iff] at done
    obtain ⟨⟨answer,middle⟩,first,⟨answers,last⟩,later,same⟩ := done
    cases same
    obtain ⟨⟨y,ran,kept'⟩,lost⟩ := call_kept kept first
    obtain ⟨⟨x,ran',kept''⟩,lost'⟩ := ih kept' later
    refine ⟨⟨x,by simp only [JsonHeap.run,ran,ran',bind,Except.bind]; rfl,kept''⟩,?_⟩
    rw [lost',lost,List.zip_cons_cons,List.countP_cons,Nat.add_assoc]
    cases call.loses answer <;> simp [Nat.add_comm]

theorem found_kept {node : Label × Forest Label} (kept : Kept m t) (held : Trees.found t.forests p = some node) :
    m.readValue p = .ok (t.value node) := by
  obtain ⟨f,member,found⟩ := List.exists_of_findSome?_eq_some held
  exact readValue_kept kept member found

-- In every run of calls on the trees the functions find no fault and answer as the trees do,
-- and what is in memory can be read as the values they stand for. When the last tree is freed,
-- all that was ever allocated has been deleted, and once, but for the labels that were lost.
theorem trees_owned {calls : List Call} {answers : List Answer} (done : Trees.empty.run calls = some (answers,t)) :
    ∃ m, JsonHeap.empty.run calls = .ok (answers,m) ∧ Kept m t ∧
      (∀ p node, Trees.found t.forests p = some node → m.readValue p = .ok (t.value node)) ∧
      t.lost.length = (calls.zip answers).countP (fun c => c.1.loses c.2) ∧ (t.forests = [] →
        (m.nodes.deleted ++ t.lost.map Prod.fst).Perm (List.range m.nodes.count) ∧
        (m.texts.deleted ++ t.lost.map Prod.snd).Perm (List.range m.texts.count)) := by
  obtain ⟨⟨m,ran,kept⟩,lost⟩ := run_kept kept_empty done
  refine ⟨m,ran,kept,fun p node => found_kept kept,lost.trans (Nat.zero_add _),fun none => ?_⟩
  have nodes := kept.nodes
  have texts := kept.texts
  rw [none,List.flatMap_nil,List.nil_append] at nodes texts
  rw [kept.count,kept.written]
  exact ⟨nodes,texts⟩

-- The second pair is refused, as a label is no value, and its own label is lost.
theorem trees_owned_session : ∃ m, JsonHeap.empty.run [.newValue .object,.newNumber ['7'],.insertPairIntoObject 0 ['a'] 1,
      .newString ['b'],.newValue .true,.insertChild 3 4,.insertPairIntoObject 0 ['c'] 3,.freeValue 3,.freeValue 0] =
        .ok ([.value 0,.value 1,.error .ok,.value 3,.value 4,.error .ok,.error .badTreeStructure,.done,.done],m) ∧
      m.nodes.count = 6 ∧ (m.nodes.deleted ++ [5]).Perm (List.range 6) ∧ (m.texts.deleted ++ [3]).Perm (List.range 4) := by
  obtain ⟨m,ran,kept,-,-,freed⟩ := trees_owned (rfl : Trees.empty.run [.newValue .object,.newNumber ['7'],.insertPairIntoObject 0 ['a'] 1,
    .newString ['b'],.newValue .true,.insertChild 3 4,.insertPairIntoObject 0 ['c'] 3,.freeValue 3,.freeValue 0] = some (_,_))
  obtain ⟨nodes,texts⟩ := freed rfl
  rw [kept.count] at nodes
  rw [kept.written] at texts
  exact ⟨m,ran,kept.count,nodes,texts⟩

-- json_free_value leaves child_end at the last of several children when it frees it, and the
-- next child that the parent takes is hung behind it.
theorem last_dangles {left within : Forest Label} {e : Label} {calls : List Call} {answers : List Answer}
    (done : Trees.empty.run calls = some (answers,t)) (held : Trees.found t.forests parent = some (d,kids))
    (cut : kids.cut p = some (left,e,within,.nil)) (several : left.first.isSome) :
    ∃ m x, JsonHeap.empty.run calls = .ok (answers,m) ∧ m.jsonFreeValue p = .ok x ∧ ∀ child f node, t.root child = some f → parent ∉ f.places →
      f.found child = some node → accepts (t.value (d,kids)) (t.value node) = true → x.insertChild parent child = .error .deleted := by
  obtain ⟨⟨m,ran,kept⟩,-⟩ := run_kept kept_empty done
  obtain ⟨front,g,back,split,found⟩ := found_split held
  cases cut_append cut
  have member : g ∈ t.forests := by simp [split]
  obtain ⟨l,x,seen,ends,freed,gone,now,-,still⟩ := sibling_freed kept member found
  refine ⟨m,x,ran,freed,fun child f node root outside top taken => ?_⟩
  have every := kept.apart
  rw [split] at every
  have among : f ∈ front ++ back := by
    have present : f ∈ t.forests := List.mem_of_find?_eq_some root
    rw [split] at present
    refine (List.mem_cons.mp (List.perm_middle.subset present)).resolve_left fun same => outside ?_
    rw [same]
    exact found_mem found
  have inside : child ∈ f.places := found_mem top
  have other : child ∉ g.places := elsewhere every f among child inside
  have apart : child ≠ parent := fun same => outside (same ▸ inside)
  obtain ⟨l',there,first⟩ := kept.seen (List.mem_of_find?_eq_some root) top
  have there' := (still child apart fun here => other (found_places found child here)).trans there
  rw [← mayHold_accepts t d node.1 _ node.2,← first] at taken
  have full : left.first.or (Forest.nil : Forest Label).first |>.isSome := by
    rw [Option.isSome_or,several]
    rfl
  rw [final_append] at ends
  rw [JsonHeap.insertChild,if_neg apart.symm]
  simp only [bind,Except.bind,Heap.read_ok (look_cell now),Heap.read_ok there',taken,if_true]
  rw [linkChild_dangles (look_cell now) there' apart.symm full ends (gone.gone p List.mem_cons_self)]

theorem last_dangles_session : ∃ m x,
    JsonHeap.empty.run [.newValue .array,.newNumber ['7'],.insertChild 0 1,.newValue .true,.insertChild 0 2,.newValue .null] =
        .ok ([.value 0,.value 1,.error .ok,.value 2,.error .ok,.value 3],m) ∧
      m.jsonFreeValue 2 = .ok x ∧ x.insertChild 0 3 = .error .deleted := by
  obtain ⟨m,x,ran,freed,dangles⟩ := last_dangles (p := 2)
    (rfl : Trees.empty.run [.newValue .array,.newNumber ['7'],.insertChild 0 1,.newValue .true,.insertChild 0 2,.newValue .null] = some (_,_))
    (rfl : Trees.found _ 0 = some (_,_)) rfl rfl
  exact ⟨m,x,ran,freed,dangles 3 _ _ rfl (by decide) rfl rfl⟩

theorem values_append (texts : List Text) (f g : Forest Label) :
    Trees.values texts (f.append g) = Trees.values texts f ++ Trees.values texts g := by
  induction f with
  | nil => rfl
  | node a d kids rest _ ih => simp [Forest.append,Trees.values,ih]

theorem value_append (t : Trees) (forests : List (Forest Label)) (d e : Label) (kids within : Forest Label) :
    Trees.value {t with forests} (d,kids.append (.node child e within .nil)) = (t.value (d,kids)).append (t.value (e,within)) := by
  simp [Trees.value,values_append,Trees.values,JsonValue.append,JsonValue.type,JsonValue.text,JsonValue.children]

-- json_insert_child on the memory does what it does on the values.
theorem insertChild_inserts {calls : List Call} {answers : List Answer} {error : JsonError}
    (done : Trees.empty.run calls = some (answers,t)) (next : t.insertChild parent child = some (error,u)) :
    ∃ m x, JsonHeap.empty.run calls = .ok (answers,m) ∧ m.insertChild parent child = .ok (error,x) ∧
      ∃ p c, m.readValue parent = .ok p ∧ m.readValue child = .ok c ∧
        ((∃ v, jsonInsertChild p c = .ok v ∧ error = .ok ∧ x.readValue parent = .ok v) ∨
          (jsonInsertChild p c = .error error ∧ x.readValue parent = .ok p)) := by
  obtain ⟨⟨m,ran,kept⟩,-⟩ := run_kept kept_empty done
  obtain ⟨x,ran',kept'⟩ := insertChild_kept kept next
  simp only [Trees.insertChild,bind,Option.bind_eq_some_iff] at next
  obtain ⟨f,root,⟨e,within⟩,top,⟨d,kids⟩,held,next⟩ := next
  obtain ⟨left,g,right,split,found⟩ := found_split held
  have holding : g ∈ t.others child := by simp [split]
  have was := readValue_kept kept (List.mem_of_mem_eraseP holding) found
  refine ⟨m,x,ran,ran',_,_,was,readValue_kept kept (List.mem_of_find?_eq_some root) top,?_⟩
  by_cases taken : accepts (t.value (d,kids)) (t.value (e,within)) = true
  · rw [if_pos taken] at next
    cases next
    refine .inl ⟨_,if_pos taken,rfl,?_⟩
    rw [readValue_kept kept' (List.mem_map_of_mem holding) (found_replace found _)]
    obtain ⟨a,c,inner,rfl,-⟩ := kept.rooted f (List.mem_of_find?_eq_some root)
    obtain ⟨-,-,-,-,first⟩ := root_split root
    cases first
    cases (if_pos rfl).symm.trans top
    exact congrArg _ (value_append t _ d e kids within)
  · rw [if_neg taken] at next
    cases next
    exact .inr ⟨if_neg taken,readValue_kept kept' (List.mem_of_mem_eraseP holding) found⟩

theorem insertChild_inserts_session :
    ∃ m x, JsonHeap.empty.run [.newValue .array,.newString ['a','/']] = .ok ([.value 0,.value 1],m) ∧ m.insertChild 0 1 = .ok (.ok,x) ∧
      ∃ p c, m.readValue 0 = .ok p ∧ m.readValue 1 = .ok c ∧ ((∃ v, jsonInsertChild p c = .ok v ∧ JsonError.ok = .ok ∧ x.readValue 0 = .ok v) ∨
        (jsonInsertChild p c = .error .ok ∧ x.readValue 0 = .ok p)) := insertChild_inserts rfl rfl

end PcNetwork.Json
