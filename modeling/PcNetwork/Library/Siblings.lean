import Mathlib.Data.List.Nodup
import Mathlib.Data.List.Perm.Basic

namespace PcNetwork
variable {δ α : Type}

-- The pointers of a node to its parent, to its first and last child and to the siblings
-- on both sides.
structure Links where
  parent : Option Nat
  child : Option Nat
  childEnd : Option Nat
  previous : Option Nat
  next : Option Nat

-- Siblings from left to right, each at its place and with its own children.
inductive Forest (δ : Type) where
  | nil
  | node (place : Nat) (label : δ) (kids : Forest δ) (rest : Forest δ)

namespace Forest

-- What the nodes give, from left to right and each in front of its children.
def collect (give : Nat → δ → List α) : Forest δ → List α
  | nil => []
  | node a d kids rest => give a d ++ (kids.collect give ++ rest.collect give)

def places (f : Forest δ) : List Nat := f.collect fun a _ => [a]

def append : Forest δ → Forest δ → Forest δ
  | nil,g => g
  | node a d kids rest,g => node a d kids (rest.append g)

-- The last sibling, or what stands in front of none.
def final (previous : Option Nat) : Forest δ → Option Nat
  | nil => previous
  | node a _ _ rest => rest.final (some a)

def first : Forest δ → Option Nat
  | nil => none
  | node a _ _ _ => some a

-- The node at a place, with its children.
def found (p : Nat) : Forest δ → Option (δ × Forest δ)
  | nil => none
  | node a d kids rest => if a = p then some (d,kids) else (kids.found p).or (rest.found p)

-- Other children for the node at a place.
def replace : Forest δ → Nat → Forest δ → Forest δ
  | nil,_,_ => nil
  | node a d kids rest,p,new =>
    if a = p then node a d new rest
    else if p ∈ kids.places then node a d (kids.replace p new) rest
    else node a d kids (rest.replace p new)

-- The node at a place among the siblings, with those on its left and on its right.
def cut (p : Nat) : Forest δ → Option (Forest δ × δ × Forest δ × Forest δ)
  | nil => none
  | node a d kids rest =>
    if a = p then some (nil,d,kids,rest) else (rest.cut p).map fun (left,e,inner,right) => (node a d kids left,e,inner,right)

-- The node that has the one at a place among its children.
def holder (p : Nat) : Forest δ → Option Nat
  | nil => none
  | node a _ kids rest => if (kids.cut p).isSome then some a else (kids.holder p).or (rest.holder p)

variable {f g new : Forest δ} {p a b : Nat}

@[simp] theorem places_node (a : Nat) (d : δ) (kids rest : Forest δ) :
    (node a d kids rest).places = a :: (kids.places ++ rest.places) := rfl

@[simp] theorem places_nil : (nil : Forest δ).places = [] := rfl

theorem node_filled {d : δ} {kids rest : Forest δ} : node a d kids rest ≠ nil := by
  intro same
  cases same

theorem append_filled {d : δ} {left kids rest : Forest δ} : left.append (node a d kids rest) ≠ nil := by
  cases left <;> exact node_filled

@[simp] theorem collect_append (give : Nat → δ → List α) (f g : Forest δ) : (f.append g).collect give = f.collect give ++ g.collect give := by
  induction f with
  | nil => rfl
  | node a d kids rest _ ih => simp [append,collect,ih]

@[simp] theorem places_append (f g : Forest δ) : (f.append g).places = f.places ++ g.places := collect_append _ f g

@[simp] theorem append_nil (f : Forest δ) : f.append .nil = f := by
  induction f with
  | nil => rfl
  | node a d kids rest _ ih => rw [append,ih]

theorem final_append (f g : Forest δ) (previous : Option Nat) : (f.append g).final previous = g.final (f.final previous) := by
  induction f generalizing previous with
  | nil => rfl
  | node a d kids rest _ ih => exact ih (some a)

-- Behind a sibling the last one does not depend on what stands in front.
theorem final_mem (f : Forest δ) (previous : Option Nat) : f = .nil ∨ ∃ a ∈ f.places, f.final previous = some a := by
  induction f generalizing previous with
  | nil => exact .inl rfl
  | node a d kids rest _ ih =>
    rcases ih (some a) with rfl | ⟨b,member,last⟩
    · exact .inr ⟨a,by simp,rfl⟩
    · exact .inr ⟨b,by simp [member],last⟩

theorem final_some (f : Forest δ) (a : Nat) : ∃ b, f.final (some a) = some b := by
  rcases final_mem f (some a) with rfl | ⟨b,_,last⟩
  · exact ⟨a,rfl⟩
  · exact ⟨b,last⟩

-- A forest is empty or has a last tree.
theorem from_right (f : Forest δ) : f = .nil ∨ ∃ (front : Forest δ) (a : Nat) (d : δ) (kids : Forest δ), f = front.append (.node a d kids .nil) := by
  induction f with
  | nil => exact .inl rfl
  | node a d kids rest _ ih =>
    rcases ih with rfl | ⟨front,b,e,below,rfl⟩
    · exact .inr ⟨.nil,a,d,kids,rfl⟩
    · exact .inr ⟨.node a d kids front,b,e,below,rfl⟩

theorem apart_node {d : δ} {kids rest : Forest δ} (apart : (node a d kids rest).places.Nodup) :
    a ∉ kids.places ∧ a ∉ rest.places ∧ kids.places.Nodup ∧ rest.places.Nodup ∧ ∀ b ∈ kids.places, b ∉ rest.places := by
  rw [places_node] at apart
  obtain ⟨alone,both⟩ := List.nodup_cons.mp apart
  obtain ⟨below,beside,between⟩ := List.nodup_append.mp both
  exact ⟨fun member => alone (List.mem_append_left _ member),fun member => alone (List.mem_append_right _ member),below,beside,
    fun b left right => between b left b right rfl⟩

theorem found_outside (outside : p ∉ f.places) : f.found p = none := by
  induction f with
  | nil => rfl
  | node a d kids rest below beside =>
    rw [places_node] at outside
    obtain ⟨other,apart⟩ := List.ne_and_not_mem_of_not_mem_cons outside
    rw [found,if_neg (Ne.symm other),below fun member => apart (List.mem_append_left _ member),
      beside fun member => apart (List.mem_append_right _ member)]
    rfl

theorem found_inside (inside : p ∈ f.places) : ∃ d kids, f.found p = some (d,kids) := by
  induction f with
  | nil => cases inside
  | node a d kids rest below beside =>
    by_cases here : a = p
    · exact ⟨d,kids,if_pos here⟩
    · rw [found,if_neg here]
      by_cases inner : p ∈ kids.places
      · obtain ⟨e,more,found⟩ := below inner
        exact ⟨e,more,by rw [found]; rfl⟩
      · obtain ⟨e,more,found⟩ := beside (by simpa [Ne.symm here,inner] using inside)
        exact ⟨e,more,by rw [found_outside inner,found]; rfl⟩

theorem found_mem {d : δ} {kids : Forest δ} (found : f.found p = some (d,kids)) : p ∈ f.places := by
  by_contra outside
  rw [found_outside outside] at found
  cases found

-- What the old children gave goes and what the new ones give comes.
theorem replace_collect [DecidableEq α] {d : δ} {kids : Forest δ} (give : Nat → δ → List α) (found : f.found p = some (d,kids))
    (new : Forest δ) : ((f.replace p new).collect give ++ kids.collect give).Perm (f.collect give ++ new.collect give) := by
  induction f with
  | nil => cases found
  | node a e below beside inner outer =>
    rw [Forest.found] at found
    rw [replace,List.perm_iff_count]
    intro x
    split at found
    · rename_i here
      cases found
      rw [if_pos here]
      simp only [collect,List.count_append]
      omega
    · rename_i other
      rw [if_neg other]
      by_cases member : p ∈ below.places
      · obtain ⟨c,more,same⟩ := found_inside member
        rw [same] at found
        cases found
        have moved := List.perm_iff_count.mp (inner same) x
        rw [if_pos member]
        simp only [collect,List.count_append] at moved ⊢
        omega
      · rw [found_outside member] at found
        have moved := List.perm_iff_count.mp (outer found) x
        rw [if_neg member]
        simp only [collect,List.count_append] at moved ⊢
        omega

-- A node gives something in front of what its children give.
theorem found_collect {d : δ} {kids : Forest δ} (give : Nat → δ → List α) (found : f.found p = some (d,kids)) :
    (give p d ++ kids.collect give).Sublist (f.collect give) := by
  induction f with
  | nil => cases found
  | node a e below beside inner outer =>
    rw [Forest.found] at found
    rw [collect]
    split at found
    · rename_i here
      subst here
      cases found
      exact (List.sublist_append_left _ _).append_left _
    · refine .trans ?_ (List.sublist_append_right _ _)
      rcases Option.or_eq_some_iff.mp found with left | ⟨_,right⟩
      · exact (inner left).trans (List.sublist_append_left _ _)
      · exact (outer right).trans (List.sublist_append_right _ _)

theorem found_below {d : δ} {kids : Forest δ} (found : f.found p = some (d,kids)) : (p :: kids.places).Sublist f.places :=
  found_collect (fun a _ => [a]) found

theorem found_places {d : δ} {kids : Forest δ} (found : f.found p = some (d,kids)) : ∀ b ∈ kids.places, b ∈ f.places :=
  fun _ member => (found_below found).subset (List.mem_cons_of_mem _ member)

theorem found_replace {d : δ} {kids : Forest δ} (found : f.found p = some (d,kids)) (new : Forest δ) :
    (f.replace p new).found p = some (d,new) := by
  induction f with
  | nil => cases found
  | node a e below beside inner outer =>
    rw [Forest.found] at found
    rw [replace]
    split at found
    · rename_i here
      cases found
      rw [if_pos here,Forest.found,if_pos here]
    · rename_i other
      rw [if_neg other]
      by_cases member : p ∈ below.places
      · obtain ⟨c,more,hit⟩ := found_inside member
        rw [hit] at found
        cases found
        rw [if_pos member,Forest.found,if_neg other,inner hit]
        rfl
      · rw [found_outside member] at found
        rw [if_neg member,Forest.found,if_neg other,found_outside member,outer found]
        rfl

-- The siblings at the top stay where they are.
theorem final_replace (f : Forest δ) (p : Nat) (new : Forest δ) (previous : Option Nat) :
    (f.replace p new).final previous = f.final previous := by
  induction f generalizing previous with
  | nil => rfl
  | node a d kids rest _ ih =>
    rw [replace]
    split
    · rfl
    · split
      · rfl
      · exact ih (some a)

theorem replace_outside (outside : p ∉ f.places) (new : Forest δ) : f.replace p new = f := by
  induction f with
  | nil => rfl
  | node a d kids rest _ ih =>
    rw [places_node] at outside
    obtain ⟨other,apart⟩ := List.ne_and_not_mem_of_not_mem_cons outside
    rw [replace,if_neg (Ne.symm other),if_neg fun member => apart (List.mem_append_left _ member),
      ih fun member => apart (List.mem_append_right _ member)]

theorem cut_append {d : δ} {left kids right : Forest δ} (cut : f.cut p = some (left,d,kids,right)) :
    f = left.append (node p d kids right) := by
  induction f generalizing left with
  | nil => cases cut
  | node a e below beside _ ih =>
    rw [Forest.cut] at cut
    split at cut
    · rename_i same
      subst same
      cases cut
      rfl
    · obtain ⟨⟨l,_,_,_⟩,found,same⟩ := Option.map_eq_some_iff.mp cut
      cases same
      rw [append,← ih found]

theorem first_append (f g : Forest δ) : (f.append g).first = f.first.or g.first := by
  cases f <;> rfl

theorem cut_collect [DecidableEq α] {d e : δ} {left within right : Forest δ} (give : Nat → δ → List α)
    (found : f.found p = some (d,left.append (node a e within right))) :
    ((f.replace p (left.append right)).collect give ++ (give a e ++ within.collect give)).Perm (f.collect give) := by
  rw [List.perm_iff_count]
  intro x
  have moved := List.perm_iff_count.mp (replace_collect give found (left.append right)) x
  simp only [collect_append,collect,List.count_append] at moved ⊢
  omega

-- One of the siblings and the others.
theorem cut_places (left : Forest δ) (a : Nat) (d : δ) (kids right : Forest δ) :
    (left.append (node a d kids right)).places.Perm ((a :: kids.places) ++ (left.append right).places) := by
  rw [places_append,places_node,places_append,← List.cons_append]
  exact List.perm_append_comm_assoc ..

theorem cut_first {left : Forest δ} (apart : a ∉ left.places) (d : δ) (kids right : Forest δ) :
    (if (left.append (node a d kids right)).first = some a then right.first else (left.append (node a d kids right)).first) =
      left.first.or right.first := by
  cases left with
  | nil => exact if_pos rfl
  | node c e more others =>
    refine if_neg fun same => apart ?_
    cases same
    exact List.mem_cons_self

-- The last sibling is another one, or the only one goes.
theorem cut_final {d : δ} {left kids right : Forest δ} (last : right.first.isSome ∨ left.first.isNone)
    (filled : left.append right ≠ .nil) : (left.append (node a d kids right)).final none = (left.append right).final none := by
  rw [final_append,final_append]
  cases right with
  | node => rfl
  | nil =>
    cases left with
    | nil => exact absurd rfl filled
    | node => simp [first] at last

end Forest

open Forest

-- Siblings that are linked to each other, to their parent and to their children. In front
-- of them and behind them stands previous and next.
inductive Linked (look : Nat → Option (Links × δ)) :
    (parent previous first next : Option Nat) → Forest δ → Prop where
  | nil : Linked look parent previous next next .nil
  | node {a : Nat} {d : δ} {kids rest : Forest δ} {child childEnd after : Option Nat}
      (here : look a = some (⟨parent,child,childEnd,previous,after⟩,d)) (last : kids ≠ .nil → childEnd = kids.final none)
      (below : Linked look (some a) none child none kids) (beside : Linked look parent (some a) after next rest) :
      Linked look parent previous (some a) next (.node a d kids rest)

namespace Linked

variable {look look' : Nat → Option (Links × δ)} {parent previous first next : Option Nat} {f g : Forest δ} {p a b : Nat}

theorem frame (linked : Linked look parent previous first next f) (same : ∀ a ∈ f.places, look' a = look a) :
    Linked look' parent previous first next f := by
  induction linked with
  | nil => exact .nil
  | node here last _ _ below beside =>
    rw [places_node] at same
    obtain ⟨head,tail⟩ := List.forall_mem_cons.mp same
    obtain ⟨inner,outer⟩ := List.forall_mem_append.mp tail
    exact .node (head.trans here) last (below inner) (beside outer)

theorem append {middle : Option Nat} (front : Linked look parent previous first middle f)
    (back : Linked look parent (f.final previous) middle next g) : Linked look parent previous first next (f.append g) := by
  induction front with
  | nil => exact back
  | node here last below _ _ ih => exact .node here last below (ih back)

theorem split (linked : Linked look parent previous first next (f.append g)) :
    ∃ middle, Linked look parent previous first middle f ∧ Linked look parent (f.final previous) middle next g := by
  induction f generalizing previous first with
  | nil => exact ⟨first,.nil,linked⟩
  | node a d kids rest _ ih =>
    cases linked with
    | node here last below beside =>
      obtain ⟨middle,front,back⟩ := ih beside
      exact ⟨middle,.node here last below front,back⟩

-- Where the siblings begin.
theorem begins (linked : Linked look parent previous first next f) : first = f.first.or next := by
  cases linked <;> rfl

-- Another pointer behind the last sibling.
theorem behind (linked : Linked look parent previous first next f) (apart : f.places.Nodup) (other : Option Nat)
    (same : ∀ a ∈ f.places, f.final previous ≠ some a → look' a = look a)
    (last : ∀ a l d, f.final previous = some a → look a = some (l,d) → look' a = some ({l with next := other},d)) :
    Linked look' parent previous (f.first.or other) other f := by
  induction linked with
  | nil => exact .nil
  | @node parent previous next a d kids rest child childEnd after here ends below beside _ ih =>
    obtain ⟨alone,apart',within,outside,between⟩ := apart_node apart
    obtain ⟨e,final⟩ := final_some rest a
    have inner : Linked look' (some a) none child none kids := by
      refine below.frame fun b member => same b (by simp [member]) fun hit => ?_
      have equal : e = b := Option.some.inj (final.symm.trans hit)
      subst equal
      rcases final_mem rest (some a) with rfl | ⟨c,there,still⟩
      · cases final
        exact alone member
      · cases final.symm.trans still
        exact between _ member there
    have outer := ih outside (fun b member hit => same b (by simp [member]) hit) last
    cases rest with
    | nil => exact .node (last a _ d rfl here) ends inner .nil
    | node b d' kids' rest' =>
      have after_b : after = some b := beside.begins
      refine .node ((same a (by simp) fun hit => ?_).trans here) ends inner (after_b ▸ outer)
      rcases final_mem (.node b d' kids' rest') (some a) with empty | ⟨c,there,still⟩
      · cases empty
      · cases hit.symm.trans still
        exact apart' there

-- Another pointer in front of the first sibling.
theorem before (linked : Linked look parent previous first next f) (apart : f.places.Nodup) (other : Option Nat)
    (same : ∀ a ∈ f.places, f.first ≠ some a → look' a = look a)
    (front : ∀ a l d, f.first = some a → look a = some (l,d) → look' a = some ({l with previous := other},d)) :
    Linked look' parent other first next f := by
  cases linked with
  | nil => exact .nil
  | @node _ _ _ a d kids rest child childEnd after here ends below beside =>
    obtain ⟨alone,apart',-,-,-⟩ := apart_node apart
    refine .node (front a _ d rfl here) ends ?_ ?_
    · refine below.frame fun b member => same b (by simp [member]) ?_
      rintro ⟨⟩
      exact alone member
    · refine beside.frame fun b member => same b (by simp [member]) ?_
      rintro ⟨⟩
      exact apart' member

-- The node at a place and its children.
theorem found {d : δ} {kids : Forest δ} (linked : Linked look parent previous first next f) (here : f.found p = some (d,kids)) :
    ∃ l, look p = some (l,d) ∧ Linked look (some p) none l.child none kids ∧ (kids ≠ .nil → l.childEnd = kids.final none) := by
  induction linked with
  | nil => cases here
  | @node _ _ _ a e below beside _ _ _ there ends within without inner outer =>
    rw [Forest.found] at here
    split at here
    · rename_i same
      subst same
      cases here
      exact ⟨_,there,within,ends⟩
    · rcases Option.or_eq_some_iff.mp here with left | ⟨_,right⟩
      · exact inner left
      · exact outer right

-- The children of one node change, and with them what it says of them.
theorem replace {d : δ} {kids new : Forest δ} {l l' : Links} (linked : Linked look parent previous first next f)
    (apart : f.places.Nodup) (here : f.found p = some (d,kids)) (was : look p = some (l,d))
    (now : look' p = some ({l with child := l'.child,childEnd := l'.childEnd},d))
    (below : Linked look' (some p) none l'.child none new) (last : new ≠ .nil → l'.childEnd = new.final none)
    (same : ∀ a ∈ f.places, a ≠ p → a ∉ kids.places → look' a = look a) :
    Linked look' parent previous first next (f.replace p new) := by
  induction linked with
  | nil => cases here
  | @node parent previous next a e within beside child childEnd after there ends inside outside inner outer =>
    obtain ⟨alone,apart',innerApart,outerApart,between⟩ := apart_node apart
    rw [Forest.found] at here
    rw [Forest.replace]
    by_cases top : a = p
    · subst top
      rw [if_pos rfl] at here ⊢
      cases here
      cases was.symm.trans there
      refine .node now last below (outside.frame fun b member => same b (by simp [member]) ?_ fun left => between b left member)
      rintro rfl
      exact apart' member
    · rw [if_neg top] at here ⊢
      by_cases member : p ∈ within.places
      · obtain ⟨c,more,hit⟩ := found_inside member
        rw [hit] at here
        cases here
        have deeper := found_places hit
        rw [if_pos member]
        refine .node ((same a (by simp) top fun left => alone (deeper a left)).trans there) ?_ ?_ ?_
        · intro some
          rw [final_replace]
          exact ends fun empty => by
            subst empty
            exact some rfl
        · exact inner innerApart hit fun b left other => same b (by simp [left]) other
        · refine outside.frame fun b right => same b (by simp [right]) ?_ fun left => between b (deeper b left) right
          rintro rfl
          exact between b member right
      · rw [found_outside member] at here
        have deeper := found_places (f := beside) here
        rw [if_neg member]
        refine .node ((same a (by simp) top fun right => apart' (deeper a right)).trans there) ends ?_ ?_
        · refine inside.frame fun b left => same b (by simp [left]) ?_ fun right => between b left (deeper b right)
          rintro rfl
          exact member left
        · exact outer outerApart here fun b right other => same b (by simp [right]) other

end Linked

-- What the node at b says when the one at a has been taken out from between its parent and
-- its siblings.
def Links.sever (parent previous next : Option Nat) (a b : Nat) (w : Links) : Links :=
  {w with
    child := if parent = some b ∧ w.child = some a then next else w.child
    previous := if next = some b then previous else w.previous
    next := if previous = some b then next else w.next}

theorem Links.sever_other {parent previous next : Option Nat} {b : Nat} (up : parent ≠ some b) (left : previous ≠ some b)
    (right : next ≠ some b) (a : Nat) (w : Links) : w.sever parent previous next a b = w := by
  simp [sever,up,left,right]

theorem Forest.first_inside {f : Forest δ} {a : Nat} (first : f.first = some a) : a ∈ f.places := by
  cases f with
  | nil => cases first
  | node b d kids rest =>
    cases first
    simp

theorem Forest.final_inside {f : Forest δ} {a : Nat} (last : f.final none = some a) : a ∈ f.places := by
  rcases f.final_mem none with rfl | ⟨b,member,same⟩
  · cases last
  · cases last.symm.trans same
    exact member

namespace Linked

variable {look look' : Nat → Option (Links × δ)} {parent first : Option Nat} {left kids right : Forest δ} {a b : Nat} {d : δ}

theorem there {previous next : Option Nat} {f : Forest δ} (linked : Linked look parent previous first next f) (inside : b ∈ f.places) :
    ∃ w, look b = some w := by
  obtain ⟨d,kids,found⟩ := found_inside inside
  obtain ⟨l,here,_⟩ := linked.found found
  exact ⟨_,here⟩

theorem among (linked : Linked look parent none first none (left.append (.node a d kids right))) :
    ∃ child childEnd, look a = some (⟨parent,child,childEnd,left.final none,right.first⟩,d) ∧ first = left.first.or (some a) ∧
      Linked look (some a) none child none kids ∧ (kids ≠ .nil → childEnd = kids.final none) := by
  have start := linked.begins
  rw [first_append,Option.or_none] at start
  obtain ⟨middle,front,back⟩ := linked.split
  cases back with
  | @node _ _ _ _ _ _ _ child childEnd after here ends below beside =>
    have behind : after = right.first := beside.begins.trans (Option.or_none ..)
    rw [behind] at here
    exact ⟨child,childEnd,here,start,below,ends⟩

-- Siblings without one of them.
theorem without (linked : Linked look parent none first none (left.append (.node a d kids right)))
    (apart : (left.append (.node a d kids right)).places.Nodup) (above : ∀ b ∈ left.places ++ right.places, parent ≠ some b)
    (mended : ∀ b ∈ left.places ++ right.places,
      look' b = (look b).map fun w => (w.1.sever parent (left.final none) right.first a b,w.2)) :
    Linked look' parent none (left.first.or right.first) none (left.append right) := by
  obtain ⟨middle,front,back⟩ := linked.split
  cases back with
  | @node _ _ _ _ _ _ _ child childEnd after here ends below beside =>
    have behind : after = right.first := beside.begins.trans (Option.or_none ..)
    subst behind
    rw [places_append,places_node] at apart
    obtain ⟨leftApart,rest,between⟩ := List.nodup_append.mp apart
    obtain ⟨-,apart',-,rightApart,-⟩ := apart_node (d := d) rest
    have across : ∀ b ∈ left.places, b ∉ right.places := fun b member other =>
      between b member b (by simp [other]) rfl
    have fronted : Linked look' parent none (left.first.or right.first) right.first left := by
      refine front.behind leftApart right.first (fun b member other => ?_) fun b l e last was => ?_
      · have inside : b ∈ left.places ++ right.places := List.mem_append_left _ member
        have apart : right.first ≠ some b := fun first => across b member (first_inside first)
        rw [mended b inside]
        cases look b with
        | none => rfl
        | some w => rw [Option.map_some,Links.sever_other (above b inside) other apart]
      · have member := final_inside last
        have inside : b ∈ left.places ++ right.places := List.mem_append_left _ member
        have apart : right.first ≠ some b := fun first => across b member (first_inside first)
        rw [mended b inside,was]
        simp [Links.sever,above b inside,last,apart]
    have backed : Linked look' parent (left.final none) right.first none right := by
      refine beside.before rightApart (left.final none) (fun b member other => ?_) fun b l e first was => ?_
      · have inside : b ∈ left.places ++ right.places := List.mem_append_right _ member
        have apart : left.final none ≠ some b := fun last => across b (final_inside last) member
        rw [mended b inside]
        cases look b with
        | none => rfl
        | some w => rw [Option.map_some,Links.sever_other (above b inside) apart other]
      · have member := first_inside first
        have inside : b ∈ left.places ++ right.places := List.mem_append_right _ member
        have apart : left.final none ≠ some b := fun last => across b (final_inside last) member
        rw [mended b inside,was]
        simp [Links.sever,above b inside,first,apart]
    exact fronted.append backed

end Linked
end PcNetwork
