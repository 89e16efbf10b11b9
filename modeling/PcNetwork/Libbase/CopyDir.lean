import PcNetwork.Libbase.PathParts
import PcNetwork.Library.Loop

namespace PcNetwork.Libbase
open FileSystem

-- A backslash at the end of the destination ends the source path where it stands.
def srcDirPath (pDst pSrc : FilePath) : FilePath :=
  if pDst.getLast? = some '\\' then (withoutSlash pSrc).take (pDst.length-1) else withoutSlash pSrc

-- The characters of what is below a directory.
def spelled (more : List Name) : FilePath := more.flatMap ('\\' :: ·)

-- All paths fit into the buffers.
structure Fits (s : FileSystem) (dst src : FilePath) (source : List Name) : Prop where
  from_source : ∀ more, s.disk.find (source ++ more) ≠ none → (src ++ spelled more).length < maxDirLen
  searched : ∀ more, s.disk.find (source ++ more) = some .directory → (src ++ spelled more).length+4 < maxDirLen
  to_destination : ∀ more, s.disk.find (source ++ more) ≠ none → (dst ++ spelled more).length < maxDirLen

-- What the source holds, put over what is there. A directory is made only where nothing is.
def put (held there : Option (Node (List UInt8))) : Option (Node (List UInt8)) :=
  match held with
  | none => there
  | some (.file bytes) => some (.file bytes)
  | some .directory => there.or (some .directory)

def merged (content : List Name → Option (Node (List UInt8))) (source place q : List Name) : Option (Node (List UInt8)) :=
  if place <+: q then put (content (source ++ q.drop place.length)) (content q) else content q

-- The source and the destination of a copy, on a disk where it can be made. Where a part of
-- the destination is one of the source, the copy has nothing new for it. No file has a
-- directory's name there, nor a directory with something in it that of a file.
structure Copyable (fuel : Nat) (s : FileSystem) (dst src : FilePath) (source place : List Name) : Prop where
  sound : s.Sound
  from_source : s.Reaches src source
  to_destination : s.Reaches dst place
  directory : s.disk.find source = some .directory
  outside : ¬ source <+: place
  unmoved : ∀ more, source <+: place ++ more → put (s.disk.find (source ++ more)) (s.disk.find (place ++ more)) = s.disk.find (place ++ more)
  files : ∀ more content, s.disk.find (source ++ more) = some (.file content) → s.disk.find (place ++ more) ≠ some .directory
  directories : ∀ more name content, s.disk.find (source ++ more ++ [name]) ≠ none → s.disk.find (place ++ more) ≠ some (.file content)
  fits : Fits s dst src source
  deep : ∀ more, s.disk.find (source ++ more) ≠ none → more.length ≤ fuel

variable {s t u : FileSystem} {dst src path : FilePath} {source place : List Name} {name : Name}
  {content : List Name → Option (Node (List UInt8))} {files : List (Name × Node (List UInt8))} {more : List Name}

theorem merged_below (content : List Name → Option (Node (List UInt8))) (source place more : List Name) :
    merged content source place (place ++ more) = put (content (source ++ more)) (content (place ++ more)) := by
  rw [merged,if_pos (List.prefix_append _ _),List.drop_left]

theorem merged_off (off : ¬ place <+: q) : merged content source place q = content q := if_neg off

theorem merged_unheld (unheld : content (source ++ more) = none) : merged content source place (place ++ more) = content (place ++ more) := by
  rw [merged_below,unheld]
  rfl

-- The source stays as it is.
theorem merged_source (unmoved : ∀ more, source <+: place ++ more → put (content (source ++ more)) (content (place ++ more)) = content (place ++ more))
    (inside : source <+: q) : merged content source place q = content q := by
  by_cases below : place <+: q
  · obtain ⟨more,rfl⟩ := below
    rw [merged_below]
    exact unmoved more inside
  · exact merged_off below

theorem spelled_cons (name : Name) (more : List Name) : path ++ spelled (name :: more) = path ++ '\\' :: name ++ spelled more := by
  simp [spelled]

theorem searched (reaches : s.Reaches src source) (inside : s.disk.find source = some .directory) :
    s.findAll (src ++ ['\\','*','.','*']) = none ∧ s.disk.listing source = [] ∨
      ∃ dots, s.findAll (src ++ ['\\','*','.','*']) = some (source,dots ++ s.asFound source) ∧
        ∀ file ∈ dots, file.1 = ['.'] ∨ file.1 = ['.','.'] := by
  have front : (src ++ ['\\','*','.','*']).take ((src ++ ['\\','*','.','*']).length-3) = src ++ ['\\'] := by
    rw [List.length_append,show src.length+[('\\' : Char),'*','.','*'].length-3 = src.length+1 by simp,List.take_append]
    simp
  have named : s.resolve (src ++ ['\\']) = some source := reaches
  unfold FileSystem.findAll
  rw [front]
  by_cases top : source.length ≤ 1
  · by_cases nothing : s.disk.listing source = []
    · exact .inl ⟨by simp [named,inside,top,nothing,FileSystem.asFound],nothing⟩
    · exact .inr ⟨[],by simp [named,inside,top,nothing,FileSystem.asFound],by simp⟩
  · exact .inr ⟨[(['.'],.directory),(['.','.'],.directory)],by simp [named,inside,top,FileSystem.asFound],by simp⟩

variable {region : List Name → Prop}

-- What is made at the destination before the entries are copied.
structure Makes (region : List Name → Prop) (s : FileSystem) (dst : FilePath) (place : List Name) : Prop where
  whole : s.disk.find place = none → Makeable s (withoutSlash dst) place ∧ Aside region s (withoutSlash dst)
  below : s.disk.find place ≠ none → Ready region s dst

-- The source and the destination of a copy are in the region.
structure Within (region : List Name → Prop) (source place : List Name) : Prop where
  source : ∀ more, region (source ++ more)
  place : ∀ more, region (place ++ more)

theorem Within.below (within : Within region source place) (name : Name) : Within region (source ++ [name]) (place ++ [name]) :=
  ⟨fun more => by rw [List.append_assoc]; exact within.source _,fun more => by rw [List.append_assoc]; exact within.place _⟩

-- Where the source is as it was, and what is at the destination is as it was or as the copy
-- makes it, the copy can go on.
theorem Copyable.transfer (ready : Copyable fuel s dst src source place) (sound : t.Sound) (drive : t.drive = s.drive)
    (directory : t.directory = s.directory) (kept : ∀ more, t.disk.find (source ++ more) = s.disk.find (source ++ more))
    (each : ∀ more, t.disk.find (place ++ more) = s.disk.find (place ++ more) ∨
      t.disk.find (place ++ more) = merged s.disk.find source place (place ++ more)) :
    Copyable fuel t dst src source place := by
  have here : t.disk.find source = s.disk.find source := by simpa using kept []
  refine ⟨sound,?_,?_,here.trans ready.directory,ready.outside,?_,?_,?_,⟨?_,?_,?_⟩,?_⟩
  · exact (same_resolve drive directory _).trans ready.from_source
  · exact (same_resolve drive directory _).trans ready.to_destination
  · rintro more ⟨rest,inside⟩
    rw [kept,← inside,kept,inside]
    exact ready.unmoved more ⟨rest,inside⟩
  · intro more bytes file
    rw [kept] at file
    rcases each more with same | same
    · rw [same]
      exact ready.files more bytes file
    · rw [same,merged_below,file]
      simp [put]
  · intro more name bytes held
    rw [List.append_assoc,kept,← List.append_assoc] at held
    have free := ready.directories more name bytes held
    rcases each more with same | same
    · rwa [same]
    · obtain ⟨node,found⟩ := Option.ne_none_iff_exists'.mp held
      have inside : source ++ more ≠ [] := List.append_ne_nil_of_left_ne_nil (DirTree.find_nonempty ready.directory) _
      rw [same,merged_below,ready.sound.tree.above found inside (by simp)]
      cases there : s.disk.find (place ++ more) with
      | none => simp [put]
      | some node =>
        rw [there] at free
        exact free
  · intro more held
    rw [kept] at held
    exact ready.fits.from_source more held
  · intro more held
    rw [kept] at held
    exact ready.fits.searched more held
  · intro more held
    rw [kept] at held
    exact ready.fits.to_destination more held
  · intro more held
    rw [kept] at held
    exact ready.deep more held

theorem Copyable.off_way (ready : Copyable fuel s dst src source place) (more : List Name) : ¬ source ++ more <+: place :=
  fun up => ready.outside ((List.prefix_append _ _).trans up)

theorem Copyable.outside_name (ready : Copyable fuel s dst src source place) (name : Name) : ¬ source ++ [name] <+: place ++ [name] := by
  intro up
  rcases List.prefix_concat_iff.mp up with same | higher
  · obtain ⟨rfl,_⟩ := List.append_inj' same rfl
    exact ready.outside (List.prefix_refl _)
  · exact ready.off_way _ higher

-- What is below one name of the source.
theorem Copyable.below (ready : Copyable (fuel+1) s dst src source place) (legal : Legal name)
    (inside : s.disk.find (source ++ [name]) = some .directory) :
    Copyable fuel s (dst ++ '\\' :: name) (src ++ '\\' :: name) (source ++ [name]) (place ++ [name]) := by
  have shift : ∀ (p : List Name) more, p ++ [name] ++ more = p ++ name :: more := fun p more => by simp
  refine ⟨ready.sound,ready.from_source.next legal,ready.to_destination.next legal,inside,ready.outside_name name,?_,?_,?_,⟨?_,?_,?_⟩,?_⟩
  · intro more below
    rw [shift] at below ⊢
    rw [shift]
    exact ready.unmoved _ ((List.prefix_append _ _).trans below)
  · intro more bytes file
    rw [shift] at file ⊢
    exact ready.files _ bytes file
  · intro more last bytes held
    rw [shift] at held ⊢
    exact ready.directories _ last bytes held
  · intro more held
    rw [shift] at held
    rw [← spelled_cons]
    exact ready.fits.from_source _ held
  · intro more held
    rw [shift] at held
    rw [← spelled_cons]
    exact ready.fits.searched _ held
  · intro more held
    rw [shift] at held
    rw [← spelled_cons]
    exact ready.fits.to_destination _ held
  · intro more held
    rw [shift] at held
    exact Nat.le_of_succ_le_succ (ready.deep _ held)

theorem Copyable.apart (ready : Copyable fuel s dst src source place) (more : List Name) : source ++ more ≠ place := by
  intro same
  exact ready.outside (same ▸ List.prefix_append _ _)

-- Making the destination changes nothing below it, and nothing of the source.
theorem Copyable.made (ready : Copyable fuel s dst src source place) (within : Within region source place)
    (grown : Grown region s (opened s.disk.find place) t) : Copyable fuel t dst src source place := by
  refine ready.transfer grown.sound grown.drive grown.directory ?_ ?_
  · intro more
    rw [grown.find _ (within.source more),opened_other (ready.apart more)]
  · intro more
    rw [grown.find _ (within.place more)]
    by_cases last : more = []
    · subst last
      have directory : s.disk.find (source ++ []) = some .directory := by simp [ready.directory]
      rw [merged_below,directory,List.append_nil,opened_end]
      exact .inr rfl
    · rw [opened_deeper last]
      exact .inl rfl

-- What one entry of the source changes: what is below its name at the destination.
structure Entered (region : List Name → Prop) (s : FileSystem) (source place : List Name) (name : Name) (t : FileSystem) : Prop where
  sound : t.Sound
  drive : t.drive = s.drive
  directory : t.directory = s.directory
  below : ∀ more, t.disk.find (place ++ [name] ++ more) = merged s.disk.find source place (place ++ [name] ++ more)
  off : ∀ q, region q → ¬ place ++ [name] <+: q → t.disk.find q = s.disk.find q
  aside : ∀ q, ¬ region q → t.disk.find q = s.disk.find q ∨ s.disk.find q = none ∧ t.disk.find q = some .directory

theorem bare_path (legal : Legal name) : withoutSlash (path ++ '\\' :: name) = path ++ '\\' :: name := if_neg (not_trailing legal)

theorem bare_source (legal : Legal name) (dst src : FilePath) : srcDirPath (dst ++ '\\' :: name) (src ++ '\\' :: name) = src ++ '\\' :: name := by
  rw [srcDirPath,if_neg (not_trailing legal),bare_path legal]

-- The names that have been copied, on a disk that is else as it was.
structure Progress (region : List Name → Prop) (s : FileSystem) (source place : List Name) (done : List (Entry Name (List UInt8)))
    (t : FileSystem) : Prop where
  sound : t.Sound
  drive : t.drive = s.drive
  directory : t.directory = s.directory
  copied : ∀ e ∈ done, ∀ more, t.disk.find (place ++ [e.name] ++ more) = merged s.disk.find source place (place ++ [e.name] ++ more)
  rest : ∀ q, region q → (∀ e ∈ done, ¬ place ++ [e.name] <+: q) → t.disk.find q = s.disk.find q
  aside : ∀ q, ¬ region q → t.disk.find q = s.disk.find q ∨ s.disk.find q = none ∧ t.disk.find q = some .directory

theorem Progress.each (progress : Progress region s source place done t) (here : region q) :
    t.disk.find q = s.disk.find q ∨ t.disk.find q = merged s.disk.find source place q := by
  by_cases copied : ∃ e ∈ done, place ++ [e.name] <+: q
  · obtain ⟨e,member,more,rfl⟩ := copied
    exact .inr (progress.copied e member more)
  · exact .inl (progress.rest q here fun e member below => copied ⟨e,member,below⟩)

-- No directory becomes a file, and no file a directory.
theorem Copyable.merged_directory (ready : Copyable fuel s dst src source place) (found : s.disk.find q = some .directory) :
    merged s.disk.find source place q = some .directory := by
  by_cases below : place <+: q
  · obtain ⟨more,rfl⟩ := below
    rw [merged_below,found]
    cases held : s.disk.find (source ++ more) with
    | none => rfl
    | some node =>
      cases node with
      | directory => rfl
      | file bytes => exact absurd found (ready.files more bytes held)
  · rw [merged_off below,found]

theorem merged_file (source place : List Name) (found : content q = some (.file bytes)) : ∃ other, merged content source place q = some (.file other) := by
  by_cases below : place <+: q
  · obtain ⟨more,rfl⟩ := below
    rw [merged_below,found]
    cases content (source ++ more) with
    | none => exact ⟨bytes,rfl⟩
    | some node =>
      cases node with
      | directory => exact ⟨bytes,rfl⟩
      | file other => exact ⟨other,rfl⟩
  · exact ⟨bytes,(merged_off below).trans found⟩

theorem Progress.lasts (progress : Progress region s source place done t) (ready : Copyable fuel s dst src source place) : Lasts s t := by
  have each (q : List Name) (there : s.disk.find q ≠ none) :
      t.disk.find q = s.disk.find q ∨ t.disk.find q = merged s.disk.find source place q := by
    by_cases here : region q
    · exact progress.each here
    · exact .inl ((progress.aside q here).resolve_right fun made => there made.1)
  refine ⟨progress.sound,progress.drive,progress.directory,fun q found => ?_,fun q bytes found => ?_⟩
  · rcases each q (by simp [found]) with same | same
    · exact same.trans found
    · exact same.trans (ready.merged_directory found)
  · rcases each q (by simp [found]) with same | same
    · exact ⟨bytes,same.trans found⟩
    · obtain ⟨other,merged⟩ := merged_file source place found
      exact ⟨other,same.trans merged⟩

theorem Progress.source_kept (progress : Progress region s source place done t) (within : Within region source place)
    (ready : Copyable fuel s dst src source place) (more : List Name) : t.disk.find (source ++ more) = s.disk.find (source ++ more) := by
  rcases progress.each (within.source more) with same | same
  · exact same
  · rw [same,merged_source ready.unmoved (List.prefix_append _ _)]

theorem same_name (below : place ++ [a] <+: place ++ [b] ++ more) : a = b := by
  rw [List.append_assoc,List.prefix_append_right_inj] at below
  exact (List.cons_prefix_cons.mp below).1

theorem Progress.next {e : Entry Name (List UInt8)} (progress : Progress region s source place done t) (within : Within region source place)
    (ready : Copyable fuel s dst src source place) (entered : Entered region t source place e.name u) (new : ∀ d ∈ done, d.name ≠ e.name) :
    Progress region s source place (done ++ [e]) u := by
  have old : ∀ more, t.disk.find (place ++ [e.name] ++ more) = s.disk.find (place ++ [e.name] ++ more) :=
    fun more => progress.rest _ ((within.below e.name).place more) fun d member below => new d member (same_name below)
  refine ⟨entered.sound,entered.drive.trans progress.drive,entered.directory.trans progress.directory,?_,?_,?_⟩
  · intro d member more
    rcases List.mem_append.mp member with earlier | last
    · rw [entered.off _ ((within.below d.name).place more) fun below => new d earlier (same_name below).symm,progress.copied d earlier]
    · obtain rfl := List.mem_singleton.mp last
      have same := old more
      rw [List.append_assoc] at same
      rw [entered.below,List.append_assoc,merged_below,merged_below,progress.source_kept within ready,same]
  · intro q here off
    rw [entered.off q here (off e (by simp)),progress.rest q here fun d member => off d (by simp [member])]
  · intro q off
    rcases entered.aside q off with same | made
    · rw [same]
      exact progress.aside q off
    · rcases progress.aside q off with same | old
      · exact .inr ⟨same.symm.trans made.1,made.2⟩
      · exact .inr ⟨old.1,made.2⟩

-- When all names have been copied, everything has.
theorem Progress.all (progress : Progress region s source place (s.disk.listing source) t) (ready : Copyable fuel s dst src source place)
    (there : s.disk.find place ≠ none) : Grown region s (merged s.disk.find source place) t := by
  refine ⟨progress.sound,progress.drive,progress.directory,?_,progress.aside⟩
  intro q here
  by_cases copied : ∃ e ∈ s.disk.listing source, place ++ [e.name] <+: q
  · obtain ⟨e,member,more,rfl⟩ := copied
    exact progress.copied e member more
  · rw [progress.rest q here fun e member below => copied ⟨e,member,below⟩]
    by_cases below : place <+: q
    · obtain ⟨more,rfl⟩ := below
      cases more with
      | nil =>
        obtain ⟨node,found⟩ := Option.ne_none_iff_exists'.mp there
        rw [merged_below,List.append_nil,List.append_nil,ready.directory,found]
        rfl
      | cons name rest =>
        rw [merged_unheld]
        by_contra held
        obtain ⟨node,found⟩ := Option.ne_none_iff_exists'.mp held
        obtain ⟨e,member,rfl⟩ := ready.sound.tree.listed_name found
        exact copied ⟨e,member,by simp⟩
    · rw [merged_off below]

end PcNetwork.Libbase
