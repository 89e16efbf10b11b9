import PcNetwork.Libbase.MkDir

namespace PcNetwork.Libbase
open FileSystem

variable {s t u : FileSystem} {dst path : FilePath} {place : List Name} {name : Name} {content : List Name → Option (Node (List UInt8))}
  {more : List Name}

-- What is there stays there and stays what it is, whatever is made or copied.
structure Lasts (s t : FileSystem) : Prop where
  sound : t.Sound
  drive : t.drive = s.drive
  directory : t.directory = s.directory
  directories : ∀ q, s.disk.find q = some .directory → t.disk.find q = some .directory
  files : ∀ q content, s.disk.find q = some (.file content) → ∃ other, t.disk.find q = some (.file other)

theorem Lasts.refl (sound : s.Sound) : Lasts s s := ⟨sound,rfl,rfl,fun _ there => there,fun _ content there => ⟨content,there⟩⟩

theorem Lasts.trans (first : Lasts s t) (second : Lasts t u) : Lasts s u := by
  refine ⟨second.sound,second.drive.trans first.drive,second.directory.trans first.directory,
    fun q there => second.directories q (first.directories q there),?_⟩
  intro q content there
  obtain ⟨other,there⟩ := first.files q content there
  exact second.files q other there

theorem Lasts.there (lasts : Lasts s t) (there : s.disk.find q ≠ none) : t.disk.find q ≠ none := by
  obtain ⟨node,found⟩ := Option.ne_none_iff_exists'.mp there
  cases node with
  | directory => simp [lasts.directories q found]
  | file content =>
    obtain ⟨other,still⟩ := lasts.files q content found
    simp [still]

-- A directory where nothing is.
def opened (content : List Name → Option (Node (List UInt8))) (place q : List Name) : Option (Node (List UInt8)) :=
  if q = place then (content q).or (some .directory) else content q

theorem opened_other (other : q ≠ place) : opened content place q = content q := if_neg other

theorem opened_deeper (deeper : more ≠ []) : opened content place (place ++ more) = content (place ++ more) :=
  opened_other (by simpa using deeper)

theorem opened_end (content : List Name → Option (Node (List UInt8))) (place : List Name) :
    opened content place place = (content place).or (some .directory) := if_pos rfl

-- The program as it is, on a disk with other things at the places of a region. Elsewhere there
-- may be more directories.
structure Grown (region : List Name → Prop) (s : FileSystem) (content : List Name → Option (Node (List UInt8))) (t : FileSystem) : Prop where
  sound : t.Sound
  drive : t.drive = s.drive
  directory : t.directory = s.directory
  find : ∀ q, region q → t.disk.find q = content q
  aside : ∀ q, ¬ region q → t.disk.find q = s.disk.find q ∨ s.disk.find q = none ∧ t.disk.find q = some .directory

-- What is missing of the parts of a path is not in the region.
def Aside (region : List Name → Prop) (s : FileSystem) (path : FilePath) : Prop :=
  ∀ q ∈ s.partsOf path path.length, region q → s.disk.find q ≠ none

-- Directories can be made in what the path leads to.
structure Ready (region : List Name → Prop) (s : FileSystem) (dst : FilePath) : Prop where
  walks : s.Walks dst
  aside : Aside region s dst
  whole : s.disk.find (s.way dst).arrive ≠ none

variable {region : List Name → Prop}

-- The parts of a path with a name behind it.
theorem take_behind (before : i ≤ path.length) (s : FileSystem) (more : FilePath) : s.way ((path ++ more).take i) = s.way (path.take i) := by
  rw [List.take_append_of_le_length before]

theorem partsOf_front (before : n ≤ path.length) (s : FileSystem) (more : FilePath) : s.partsOf (path ++ more) n = s.partsOf path n := by
  unfold partsOf
  have same : (List.range n).filter (fun i => (path ++ more)[i]? = some '\\') = (List.range n).filter fun i => path[i]? = some '\\' := by
    refine List.filter_congr fun i within => ?_
    rw [List.getElem?_append_left (Nat.lt_of_lt_of_le (List.mem_range.mp within) before)]
  rw [same]
  refine List.map_congr_left fun i member => ?_
  have within := List.mem_range.mp (List.mem_filter.mp member).1
  rw [take_behind (within.le.trans before)]

theorem slash_behind (plain : '\\' ∉ name) (slash : (path ++ '\\' :: name)[i]? = some '\\') : path[i]? = some '\\' ∨ i = path.length := by
  rcases Nat.lt_trichotomy i path.length with inside | rfl | behind
  · rw [List.getElem?_append_left inside] at slash
    exact .inl slash
  · exact .inr rfl
  · obtain ⟨k,rfl⟩ := Nat.exists_eq_add_of_lt behind
    rw [List.getElem?_append_right (by omega),show path.length+k+1-path.length = k+1 by omega,List.getElem?_cons_succ] at slash
    exact absurd (List.mem_of_getElem? slash) plain

theorem mem_partsOf_behind (plain : '\\' ∉ name) (s : FileSystem) (member : q ∈ s.partsOf (path ++ '\\' :: name) (path ++ '\\' :: name).length) :
    q ∈ s.partsOf path path.length ∨ q = (s.way path).arrive := by
  obtain ⟨i,_,slash,rfl⟩ := mem_partsOf.mp member
  rcases slash_behind plain slash with inside | rfl
  · have within := (List.getElem?_eq_some_iff.mp inside).1
    rw [take_behind within.le]
    exact .inl (mem_partsOf.mpr ⟨i,within,inside,rfl⟩)
  · rw [List.take_left]
    exact .inr rfl

theorem partsOf_grows (fewer : n ≤ m) (member : q ∈ s.partsOf path n) : q ∈ s.partsOf path m := by
  obtain ⟨i,within,slash,same⟩ := mem_partsOf.mp member
  exact mem_partsOf.mpr ⟨i,Nat.lt_of_lt_of_le within fewer,slash,same⟩

theorem FileSystem.Walks.behind (walks : s.Walks path) (nonempty : path ≠ []) (whole : s.disk.find (s.way path).arrive ≠ none) (plain : '\\' ∉ name) :
    s.Walks (path ++ '\\' :: name) := by
  refine ⟨?_,fun i slash => ?_⟩
  · rw [List.head?_append_of_ne_nil _ nonempty]
    exact walks.front
  · rcases slash_behind plain slash with inside | rfl
    · have within := (List.getElem?_eq_some_iff.mp inside).1
      rw [take_behind within.le,partsOf_front within.le]
      exact walks.parts i inside
    · rw [List.take_left]
      exact .inl (filled_grown whole)

theorem Aside.behind (aside : Aside region s path) (whole : s.disk.find (s.way path).arrive ≠ none) (plain : '\\' ∉ name) :
    Aside region s (path ++ '\\' :: name) := by
  intro q member inside
  rcases mem_partsOf_behind plain s member with part | rfl
  · exact aside q part inside
  · exact whole

theorem legal_backslash (legal : Legal name) : '\\' ∉ name := by
  intro member
  have separated := (legal_plain legal _ member).1
  cases separated

-- One name further, where that is there, and where it is made.
theorem Ready.next (ready : Ready region s dst) (nonempty : dst ≠ []) (reaches : s.Reaches dst place) (legal : Legal name)
    (there : s.disk.find (place ++ [name]) ≠ none) : Ready region s (dst ++ '\\' :: name) := by
  have plain := legal_backslash legal
  refine ⟨ready.walks.behind nonempty ready.whole plain,ready.aside.behind ready.whole plain,?_⟩
  rw [reaches.way_name legal,Way.arrive,descend_legal _ legal]
  exact there

theorem Ready.makeable (ready : Ready region s dst) (nonempty : dst ≠ []) (reaches : s.Reaches dst place) (legal : Legal name)
    (inside : s.disk.find place = some .directory) (missing : s.disk.find (place ++ [name]) = none) (here : region (place ++ [name])) :
    Makeable s (dst ++ '\\' :: name) (place ++ [name]) ∧ Aside region s (dst ++ '\\' :: name) := by
  have plain := legal_backslash legal
  have aside := ready.aside.behind ready.whole plain
  refine ⟨⟨ready.walks.behind nonempty ready.whole plain,reaches.named legal,?_,?_,?_⟩,aside⟩
  · rw [filled_other fun member => aside _ member here]
    exact missing
  · rw [List.dropLast_concat,filled_there (by simp [inside])]
    exact inside
  · rw [List.getLastD_concat]
    exact legal

theorem Ready.grown (ready : Ready region s dst) (lasts : Lasts s t)
    (aside : ∀ q, ¬ region q → s.disk.find q = none → t.disk.find q = none ∨ t.disk.find q = some .directory) : Ready region t dst := by
  have parts (n : Nat) : t.partsOf dst n = s.partsOf dst n := same_parts lasts.drive lasts.directory dst n
  refine ⟨⟨ready.walks.front,fun i slash => ?_⟩,?_,?_⟩
  · rw [same_way lasts.drive lasts.directory,parts]
    rcases ready.walks.parts i slash with there | ⟨_,inside,legal⟩
    · refine .inl fun missing => there ?_
      have gone : t.disk.find (s.way (dst.take i)).arrive = none := by
        by_contra still
        exact filled_grown still missing
      have missing_too : s.disk.find (s.way (dst.take i)).arrive = none := by
        by_contra still
        exact lasts.there still gone
      rw [filled_other fun member => absurd missing (filled_made member)]
      exact missing_too
    · refine or_iff_not_imp_left.mpr fun free => ⟨not_not.mp free,?_,legal⟩
      -- what is above is a directory still, or one that is made on the way
      by_cases old : s.disk.find (s.way (dst.take i)).arrive.dropLast = none
      · have member : (s.way (dst.take i)).arrive.dropLast ∈ s.partsOf dst i := by
          by_contra off
          rw [filled_other fun member => absurd member off,old] at inside
          cases inside
        have outside : ¬ region (s.way (dst.take i)).arrive.dropLast := fun here =>
          ready.aside _ (partsOf_grows (List.getElem?_eq_some_iff.mp slash).1.le member) here old
        rcases aside _ outside old with none | made
        · rw [filled,if_pos ⟨none,member⟩]
        · rw [filled_there (by simp [made])]
          exact made
      · rw [filled_there old] at inside
        have still := lasts.directories _ inside
        rw [filled_there (by simp [still])]
        exact still
  · unfold Aside
    rw [parts]
    exact fun q member here => lasts.there (ready.aside q member here)
  · rw [same_way lasts.drive lasts.directory]
    exact lasts.there ready.whole

end PcNetwork.Libbase
