import Mathlib.Data.List.Nodup
import Mathlib.Data.List.Infix

namespace PcNetwork

inductive Node (α : Type) where
  | directory
  | file (content : α)
deriving DecidableEq

-- What has a name in the directory at a place. A place is the names on the way to it.
structure Entry (ν α : Type) where
  above : List ν
  name : ν
  node : Node α
deriving DecidableEq

def Entry.place (e : Entry ν α) : List ν := e.above ++ [e.name]

-- A tree as its entries, in the order in which its directories are listed. What is in it
-- at the top is in no directory.
abbrev DirTree (ν α : Type) := List (Entry ν α)

namespace DirTree

variable {ν α : Type} [DecidableEq ν]

def find (t : DirTree ν α) (p : List ν) : Option (Node α) := (t.find? fun e => e.place = p).map (·.node)

def listing (t : DirTree ν α) (p : List ν) : List (Entry ν α) := t.filter (·.above = p)

def erase (t : DirTree ν α) (p : List ν) : DirTree ν α := t.filter (·.place ≠ p)

def enter (t : DirTree ν α) (e : Entry ν α) : DirTree ν α := t.erase e.place ++ [e]

structure Sound (t : DirTree ν α) : Prop where
  distinct : (t.map Entry.place).Nodup
  closed : ∀ e ∈ t, e.above = [] ∨ t.find e.above = some .directory

variable {t : DirTree ν α} {e : Entry ν α} {node : Node α} {p q : List ν}

theorem find_erase (t : DirTree ν α) (p q : List ν) : (t.erase p).find q = if q = p then none else t.find q := by
  rw [find,erase,List.find?_filter]
  split
  · rename_i same
    subst same
    simp
  · rename_i apart
    congr 2
    funext e
    by_cases here : e.place = q
    · simp [here,apart]
    · simp [here]

theorem find_enter (t : DirTree ν α) (e : Entry ν α) (q : List ν) :
    (t.enter e).find q = if q = e.place then some e.node else t.find q := by
  have others := find_erase t e.place q
  rw [find] at others ⊢
  rw [enter,List.find?_append,Option.map_or,others]
  split
  · rename_i same
    simp [same]
  · rename_i apart
    have apart : e.place ≠ q := fun same => apart same.symm
    simp [apart]

theorem find_mem (found : t.find p = some node) : ∃ e ∈ t, e.place = p ∧ e.node = node := by
  obtain ⟨e,first,rfl⟩ := Option.map_eq_some_iff.mp found
  exact ⟨e,List.mem_of_find?_eq_some first,by simpa using List.find?_some first,rfl⟩

theorem find_nonempty (found : t.find p = some node) : p ≠ [] := by
  obtain ⟨e,_,rfl,_⟩ := find_mem found
  simp [Entry.place]

theorem Sound.find (sound : t.Sound) (member : e ∈ t) : t.find e.place = some e.node := by
  cases first : t.find? fun d => d.place = e.place with
  | none => simpa using List.find?_eq_none.mp first e member
  | some d =>
    have same : d.place = e.place := by simpa using List.find?_some first
    cases List.inj_on_of_nodup_map sound.distinct (List.mem_of_find?_eq_some first) member same
    simp [DirTree.find,first]

theorem Sound.listed (sound : t.Sound) (member : e ∈ t.listing p) : t.find (p ++ [e.name]) = some e.node := by
  obtain ⟨inside,above⟩ := List.mem_filter.mp member
  obtain rfl : e.above = p := by simpa using above
  exact sound.find inside

theorem listing_complete (found : t.find (p ++ [name]) = some node) : ∃ e ∈ t.listing p, e.name = name ∧ e.node = node := by
  obtain ⟨e,member,place,same⟩ := find_mem found
  obtain ⟨above,named⟩ := List.append_inj' place rfl
  exact ⟨e,List.mem_filter.mpr ⟨member,by simp [above]⟩,by simpa using named,same⟩

-- The way to what is in the tree leads through directories.
theorem Sound.above (sound : t.Sound) (found : t.find (p ++ more) = some node) (top : p ≠ []) (further : more ≠ []) :
    t.find p = some .directory := by
  induction more using List.reverseRecOn generalizing node with
  | nil => exact absurd rfl further
  | append_singleton more name ih =>
    rw [← List.append_assoc] at found
    obtain ⟨e,member,place,_⟩ := find_mem found
    have above : e.above = p ++ more := (List.append_inj' place rfl).1
    have inside : t.find (p ++ more) = some .directory := by
      rcases sound.closed e member with outermost | inside
      · exact absurd (above.symm.trans outermost) (by simp [top])
      · rwa [above] at inside
    rcases more.eq_nil_or_concat with rfl | ⟨most,last,rfl⟩
    · simpa using inside
    · exact ih inside (by simp)

theorem Sound.up (sound : t.Sound) (inside : t.find p = some .directory) (higher : q <+: p) (top : q ≠ []) :
    t.find q = some .directory := by
  obtain ⟨more,rfl⟩ := higher
  rcases eq_or_ne more [] with rfl | further
  · rwa [List.append_nil] at inside
  · exact sound.above inside top further

theorem Sound.up_there (sound : t.Sound) (there : t.find p ≠ none) (higher : q <+: p) (top : q ≠ []) : t.find q ≠ none := by
  obtain ⟨node,found⟩ := Option.ne_none_iff_exists'.mp there
  obtain ⟨more,rfl⟩ := higher
  rcases eq_or_ne more [] with rfl | further
  · rwa [List.append_nil] at there
  · simp [sound.above found top further]

theorem Sound.unlisted (sound : t.Sound) (file : t.find p ≠ some .directory) (top : p ≠ []) : t.listing p = [] := by
  refine List.eq_nil_iff_forall_not_mem.mpr ?_
  intro e member
  exact file (sound.above (sound.listed member) top (by simp))

theorem Sound.listed_name (sound : t.Sound) (found : t.find (p ++ name :: rest) = some node) : ∃ e ∈ t.listing p, e.name = name := by
  have here : ∃ node, t.find (p ++ [name]) = some node := by
    rcases eq_or_ne rest [] with rfl | deeper
    · exact ⟨node,found⟩
    · rw [List.append_cons] at found
      exact ⟨_,sound.above found (by simp) deeper⟩
  obtain ⟨node,found⟩ := here
  obtain ⟨e,member,named,_⟩ := listing_complete found
  exact ⟨e,member,named⟩

theorem Sound.listing_ne (sound : t.Sound) (found : t.find (p ++ more) = some node) (further : more ≠ []) : t.listing p ≠ [] := by
  obtain ⟨name,rest,rfl⟩ := List.exists_cons_of_ne_nil further
  obtain ⟨e,member,_⟩ := sound.listed_name found
  exact List.ne_nil_of_mem member

-- What is erased has nothing below it.
theorem Sound.erase (sound : t.Sound) (bare : t.listing p = []) : (t.erase p).Sound := by
  constructor
  · exact sound.distinct.sublist (List.filter_sublist.map _)
  · intro e member
    obtain ⟨member,_⟩ := List.mem_filter.mp member
    rcases sound.closed e member with outermost | inside
    · exact .inl outermost
    · refine .inr ?_
      rw [find_erase,if_neg,inside]
      rintro same
      have listed : e ∈ t.listing p := List.mem_filter.mpr ⟨member,by simp [same]⟩
      rw [bare] at listed
      cases listed

-- What is entered goes into a directory, and into the place of something with nothing
-- below it.
theorem Sound.enter (sound : t.Sound) (inside : t.find e.above = some .directory) (bare : t.listing e.place = []) :
    (t.enter e).Sound := by
  have erased := sound.erase bare
  have longer : e.above ≠ e.place := by simp [Entry.place]
  constructor
  · rw [DirTree.enter,List.map_append,List.nodup_append]
    refine ⟨erased.distinct,List.nodup_singleton _,?_⟩
    rintro _ member _ last rfl
    obtain ⟨d,member,same⟩ := List.mem_map.mp member
    have apart : d.place ≠ e.place := by simpa using (List.mem_filter.mp member).2
    exact apart (same.trans (by simpa using last))
  · intro d member
    rw [find_enter]
    rcases List.mem_append.mp member with old | new
    · rcases erased.closed d old with outermost | above
      · exact .inl outermost
      · rw [find_erase] at above
        split at above
        · cases above
        · rename_i apart
          exact .inr (by rw [if_neg apart,above])
    · obtain rfl := List.mem_singleton.mp new
      exact .inr (by rw [if_neg longer,inside])

-- A tree ends somewhere.
theorem bounded (t : DirTree ν α) : ∃ depth, ∀ p, t.find p ≠ none → p.length ≤ depth := by
  have entries : ∃ depth, ∀ e ∈ t, e.place.length ≤ depth := by
    induction t with
    | nil => exact ⟨0,by simp⟩
    | cons e rest ih =>
      obtain ⟨depth,bound⟩ := ih
      refine ⟨max e.place.length depth,?_⟩
      intro d member
      rcases List.mem_cons.mp member with rfl | old
      · exact Nat.le_max_left ..
      · exact (bound d old).trans (Nat.le_max_right ..)
  obtain ⟨depth,bound⟩ := entries
  refine ⟨depth,?_⟩
  intro p there
  obtain ⟨node,found⟩ := Option.ne_none_iff_exists'.mp there
  obtain ⟨e,member,rfl,_⟩ := find_mem found
  exact bound e member

end DirTree
end PcNetwork
