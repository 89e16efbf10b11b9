import PcNetwork.Libbase.FileSystem
import PcNetwork.Library.Loop

namespace PcNetwork.Libbase

-- The places that were found to be removed are written down.
structure Removal where
  fs : FileSystem
  found : List (List Name)

def RmFile (s : FileSystem) (pFilePath : FilePath) : Option FileSystem :=
  if FilePathCheck pFilePath then s.remove pFilePath else none

-- No result where the call throws, and where the path does not fit into its buffer, for which
-- the program is ended.
def RmEntry (rmDir : Removal → FilePath → Option Removal) (pDirPath : FilePath) (place : List Name) (s : Removal)
    (file : Name × Node (List UInt8)) : Option Removal :=
  if file.1 = ['.'] ∨ file.1 = ['.','.'] then some s
  else if maxDirLen ≤ (pDirPath ++ '\\' :: file.1).length then none
  else
    let s := {s with found := s.found ++ [place ++ [file.1]]}
    match file.2 with
    | .directory => rmDir s (pDirPath ++ '\\' :: file.1)
    | .file _ => (RmFile s.fs (pDirPath ++ '\\' :: file.1)).map fun fs => {s with fs := fs}

-- What is searched for begins with the buffer that it is written to, which is empty.
def rmPattern (pDirPath : FilePath) : FilePath :=
  let tmpDirPath : FilePath := []
  if pDirPath.getLast? = some '\\' then tmpDirPath ++ ['*','.','*'] else tmpDirPath ++ ['\\','*','.','*']

def RmDir : Nat → Removal → FilePath → Option Removal
  | 0,_,_ => none
  | fuel+1,s,pDirPath =>
    if DirPathCheck pDirPath then
      match s.fs.findAll (rmPattern pDirPath) with
      | none => some s
      | some (place,files) => do
        let s ← files.foldlM (RmEntry (RmDir fuel) pDirPath place) s
        let fs ← s.fs.rmdir pDirPath
        some {s with fs := fs}
    else none

structure RemovesSubtree (before : FileSystem) (place : List Name) (after : Removal) : Prop where
  gone : ∀ q, place <+: q → after.fs.disk.find q = none
  inside : ∀ q ∈ after.found, place <+: q
  kept : ∀ q, ¬ place <+: q → after.fs.disk.find q = before.disk.find q

def Removes (s : FileSystem) (path : FilePath) (place : List Name) : Prop :=
  ∃ fuel after, RmDir fuel ⟨s,[]⟩ path = some after ∧ RemovesSubtree s place after

-- An empty directory, removed under a path with a backslash at its end from another
-- directory with nothing in it.
structure Deserted (s : FileSystem) (path : FilePath) (place : List Name) : Prop where
  trailing : path.getLast? = some '\\'
  bare : s.disk.listing place = []
  below : 1 < place.length
  elsewhere : place ≠ s.working s.drive
  nothing_here : s.disk.listing (s.working s.drive) = []
  here_below : 1 < (s.working s.drive).length

-- The program works on the same disk, in the same directories.
structure Keeps (s t : Removal) : Prop where
  sound : t.fs.Sound
  working : t.fs.working t.fs.drive = s.fs.working s.fs.drive
  found : s.found <+: t.found

theorem Keeps.trans (first : Keeps s t) (second : Keeps t u) : Keeps s u :=
  ⟨second.sound,second.working.trans first.working,first.found.trans second.found⟩

namespace FileSystem

theorem Sound.erase {s : FileSystem} (sound : s.Sound) (bare : s.disk.listing place = []) (elsewhere : place ≠ s.working s.drive) :
    Sound {s with disk := s.disk.erase place} := by
  refine ⟨sound.tree.erase bare,?_,?_⟩
  · intro e member
    exact sound.named e (List.mem_filter.mp member).1
  · show (s.disk.erase place).find (s.working s.drive) = some .directory
    rw [DirTree.find_erase,if_neg elsewhere.symm,sound.works]

theorem remove_sound {s t : FileSystem} (sound : s.Sound) (removed : s.remove path = some t) :
    t.Sound ∧ t.working t.drive = s.working s.drive := by
  obtain ⟨place,_,removed⟩ := Option.bind_eq_some_iff.mp removed
  split at removed
  · rename_i content file
    cases removed
    have unlisted := sound.tree.unlisted (by rw [file]; simp) (DirTree.find_nonempty file)
    refine ⟨sound.erase unlisted ?_,rfl⟩
    rintro rfl
    rw [sound.works] at file
    cases file
  · cases removed

theorem rmdir_some {s t : FileSystem} (removed : s.rmdir path = some t) : ∃ place, s.resolve path = some place ∧
    s.disk.listing place = [] ∧ 1 < place.length ∧ place ≠ s.working s.drive ∧ t = {s with disk := s.disk.erase place} := by
  obtain ⟨place,named,removed⟩ := Option.bind_eq_some_iff.mp removed
  split at removed
  · rename_i fit
    cases removed
    exact ⟨place,named,fit.2.1,fit.2.2.1,fit.2.2.2,rfl⟩
  · cases removed

end FileSystem

variable {rmDir : Removal → FilePath → Option Removal} {path : FilePath} {place : List Name} {file : Name × Node (List UInt8)}
  {files : List (Name × Node (List UInt8))} {s t : Removal}

theorem entry_keeps (recursion : ∀ s t path, s.fs.Sound → rmDir s path = some t → Keeps s t) (sound : s.fs.Sound)
    (removed : RmEntry rmDir path place s file = some t) : Keeps s t := by
  unfold RmEntry at removed
  split at removed
  · cases removed
    exact ⟨sound,rfl,List.prefix_refl _⟩
  · split at removed
    · cases removed
    · have noted : s.found <+: s.found ++ [place ++ [file.1]] := List.prefix_append ..
      dsimp only at removed
      split at removed
      · have kept := recursion {s with found := s.found ++ [place ++ [file.1]]} t _ sound removed
        exact ⟨kept.sound,kept.working,noted.trans kept.found⟩
      · obtain ⟨fs,file_removed,rfl⟩ := Option.map_eq_some_iff.mp removed
        unfold RmFile at file_removed
        split at file_removed
        · obtain ⟨sound,working⟩ := FileSystem.remove_sound sound file_removed
          exact ⟨sound,working,noted⟩
        · cases file_removed

theorem entries_keep (recursion : ∀ s t path, s.fs.Sound → rmDir s path = some t → Keeps s t) (sound : s.fs.Sound)
    (removed : files.foldlM (RmEntry rmDir path place) s = some t) : Keeps s t := by
  refine foldlM_invariant (Keeps s) removed ⟨sound,rfl,List.prefix_refl _⟩ ?_
  intro r file u _ kept removed
  exact kept.trans (entry_keeps recursion kept.sound removed)

theorem rmDir_some (removed : RmDir fuel s path = some t) : ∃ less, fuel = less+1 ∧
    (s.fs.findAll (rmPattern path) = none ∧ t = s ∨
      ∃ place files middle fs, s.fs.findAll (rmPattern path) = some (place,files) ∧
        files.foldlM (RmEntry (RmDir less) path place) s = some middle ∧ middle.fs.rmdir path = some fs ∧ t = {middle with fs := fs}) := by
  cases fuel with
  | zero => cases removed
  | succ less =>
    refine ⟨less,rfl,?_⟩
    unfold RmDir at removed
    split at removed
    · split at removed
      · rename_i nothing
        cases removed
        exact .inl ⟨nothing,rfl⟩
      · rename_i place files found
        obtain ⟨middle,visited,removed⟩ := Option.bind_eq_some_iff.mp removed
        obtain ⟨fs,last,removed⟩ := Option.bind_eq_some_iff.mp removed
        cases removed
        exact .inr ⟨place,files,middle,fs,found,visited,last,rfl⟩
    · cases removed

theorem rmDir_keeps (sound : s.fs.Sound) (removed : RmDir fuel s path = some t) : Keeps s t := by
  induction fuel generalizing s t path with
  | zero => cases removed
  | succ fuel ih =>
    obtain ⟨less,same,outcome⟩ := rmDir_some removed
    obtain rfl := Nat.succ.inj same
    rcases outcome with ⟨_,rfl⟩ | ⟨place,files,middle,fs,_,visited,last,rfl⟩
    · exact ⟨sound,rfl,List.prefix_refl _⟩
    · have kept := entries_keep (fun _ _ _ sound removed => ih sound removed) sound visited
      obtain ⟨place,_,bare,_,elsewhere,rfl⟩ := FileSystem.rmdir_some last
      exact ⟨kept.sound.erase bare elsewhere,kept.working,kept.found⟩

-- The first entry is found, and a directory is removed before anything else is done.
theorem first_found (legal : Legal file.1) (recursion : ∀ s t path, s.fs.Sound → rmDir s path = some t → Keeps s t) (sound : s.fs.Sound)
    (removed : (file :: files).foldlM (RmEntry rmDir path place) s = some t) : place ++ [file.1] ∈ t.found ∧
    (file.2 = .directory → ∃ u, rmDir {s with found := s.found ++ [place ++ [file.1]]} (path ++ '\\' :: file.1) = some u ∧
      u.found <+: t.found) := by
  rw [List.foldlM_cons] at removed
  obtain ⟨middle,first,rest⟩ := Option.bind_eq_some_iff.mp removed
  have kept := entry_keeps recursion sound first
  have found := (entries_keep recursion kept.sound rest).found
  unfold RmEntry at first
  obtain ⟨_,no_dot,no_dots,_⟩ := FileSystem.legal_iff.mp legal
  rw [if_neg (by simp [no_dot,no_dots])] at first
  split at first
  · cases first
  · dsimp only at first
    split at first
    · rename_i directory
      have later := (recursion {s with found := s.found ++ [place ++ [file.1]]} middle _ sound first).found
      exact ⟨found.subset (later.subset (by simp)),fun _ => ⟨middle,first,found⟩⟩
    · rename_i content same
      obtain ⟨fs,_,rfl⟩ := Option.map_eq_some_iff.mp first
      exact ⟨found.subset (by simp),fun directory => by rw [same] at directory; cases directory⟩

namespace FileSystem

theorem findAll_root {s : FileSystem} (sound : s.Sound) : s.findAll ['\\','*','.','*'] =
    if s.disk.listing (root s.drive) = [] then none else some (root s.drive,s.asFound (root s.drive)) := by
  have named : s.resolve ['\\'] = some (root s.drive) := by
    simp [resolve,way,depart,rooted,Way.walk,Way.arrive,isSeparator,descend]
  have inside := sound.root
  unfold root at *
  simp [findAll,named,inside,asFound]

theorem findAll_here {s : FileSystem} (sound : s.Sound) : s.findAll ['*','.','*'] =
    if (s.working s.drive).length ≤ 1 then
      if s.disk.listing (s.working s.drive) = [] then none else some (s.working s.drive,s.asFound (s.working s.drive))
    else some (s.working s.drive,(['.'],.directory) :: (['.','.'],.directory) :: s.asFound (s.working s.drive)) := by
  simp only [findAll,asFound]
  by_cases top : (s.working s.drive).length ≤ 1
  · simp [sound.works,top]
  · simp [sound.works,top]

end FileSystem

-- Under a path without a backslash at its end the root is searched. Where the first entry
-- there is a directory, the call for it searches the root as well, and so on.
theorem root_searched (sound : s.fs.Sound) (bare : path.getLast? ≠ some '\\') (removed : RmDir fuel s path = some t) :
    s.fs.disk.listing (FileSystem.root s.fs.drive) = [] ∧ t = s ∨
      ∃ e rest, s.fs.disk.listing (FileSystem.root s.fs.drive) = e :: rest ∧ e.node ≠ .directory ∧
        FileSystem.root s.fs.drive ++ [e.name] ∈ t.found := by
  induction fuel generalizing s t path with
  | zero => cases removed
  | succ fuel ih =>
    obtain ⟨less,same,rest⟩ := rmDir_some removed
    obtain rfl := Nat.succ.inj same
    rw [show rmPattern path = ['\\','*','.','*'] from if_neg bare,FileSystem.findAll_root sound] at rest
    cases here : s.fs.disk.listing (FileSystem.root s.fs.drive) with
    | nil =>
      simp only [here,if_true,true_and,reduceCtorEq,false_and,exists_false,or_false] at rest
      exact .inl ⟨rfl,rest⟩
    | cons e others =>
      simp only [here,reduceCtorEq,if_false,false_and,false_or,Option.some.injEq,Prod.mk.injEq] at rest
      obtain ⟨_,_,middle,fs,⟨rfl,rfl⟩,visited,last,rfl⟩ := rest
      have legal : Legal e.name := sound.legal (FileSystem.root_ne _) (here ▸ List.mem_cons_self ..)
      rw [FileSystem.asFound,here,List.map_cons] at visited
      obtain ⟨found,deeper⟩ := first_found legal (fun _ _ _ sound removed => rmDir_keeps sound removed) sound visited
      refine .inr ⟨e,others,rfl,?_,found⟩
      intro directory
      obtain ⟨u,removed,_⟩ := deeper directory
      have again := ih (s := {s with found := s.found ++ [_]}) sound (FileSystem.not_trailing legal) removed
      simp only [here,reduceCtorEq,false_and,false_or,List.cons.injEq] at again
      obtain ⟨_,_,⟨rfl,_⟩,file,_⟩ := again
      exact file directory

-- Under one with a backslash at its end it is the directory that the program works in.
theorem here_searched (sound : s.fs.Sound) (trailing : path.getLast? = some '\\') (removed : RmDir fuel s path = some t) :
    t = s ∨ ∃ less middle fs, (s.fs.disk.listing (s.fs.working s.fs.drive) = [] → 1 < (s.fs.working s.fs.drive).length) ∧
      (s.fs.asFound (s.fs.working s.fs.drive)).foldlM (RmEntry (RmDir less) path (s.fs.working s.fs.drive)) s = some middle ∧
      middle.fs.rmdir path = some fs ∧ t = {middle with fs := fs} := by
  obtain ⟨less,_,rest⟩ := rmDir_some removed
  rw [show rmPattern path = ['*','.','*'] from if_pos trailing,FileSystem.findAll_here sound] at rest
  rcases rest with ⟨_,same⟩ | ⟨place,files,middle,fs,searched,visited,last,rfl⟩
  · exact .inl same
  · refine .inr ⟨less,middle,fs,?_⟩
    split at searched
    · split at searched
      · cases searched
      · rename_i something
        cases searched
        exact ⟨fun nothing => absurd nothing something,visited,last,rfl⟩
    · rename_i deep
      cases searched
      exact ⟨fun _ => Nat.lt_of_not_le deep,by simpa [RmEntry] using visited,last,rfl⟩

theorem kept_above (kept : Keeps s t) (up : place <+: s.fs.working s.fs.drive) (inside : place ≠ []) :
    t.fs.disk.find place = some .directory := by
  have works := kept.sound.works
  rw [kept.working] at works
  exact kept.sound.tree.up works up inside

-- A place that the program does not work at or below lies below no file of a directory
-- on the way to where it works.
theorem not_below (sound : s.fs.Sound) (apart : ¬ place <+: s.fs.working s.fs.drive) (directory : s.fs.disk.find place = some .directory)
    (up : here <+: s.fs.working s.fs.drive) (member : e ∈ s.fs.disk.listing here) (below : place <+: here ++ [e.name]) :
    place = here ++ [e.name] ∧ e.node = .directory := by
  rcases List.prefix_concat_iff.mp below with rfl | higher
  · have listed := sound.tree.listed member
    rw [directory] at listed
    exact ⟨rfl,(Option.some.inj listed).symm⟩
  · exact absurd (higher.trans up) apart

theorem removes_deserted {s : FileSystem} (sound : s.Sound) (named : s.resolve path = some place) (directory : s.disk.find place = some .directory)
    (removed : RmDir fuel ⟨s,[]⟩ path = some t) (subtree : RemovesSubtree s place t) : Deserted s path place := by
  have kept := rmDir_keeps (s := ⟨s,[]⟩) sound removed
  have gone := subtree.gone place (List.prefix_refl _)
  have inside := DirTree.find_nonempty directory
  have changed : t ≠ ⟨s,[]⟩ := by
    rintro rfl
    rw [gone] at directory
    cases directory
  have apart : ¬ place <+: s.working s.drive := by
    intro up
    rw [kept_above kept up inside] at gone
    cases gone
  have up : FileSystem.root s.drive <+: s.working s.drive := List.prefix_append _ _
  have trailing : path.getLast? = some '\\' := by
    by_contra bare
    rcases root_searched (s := ⟨s,[]⟩) sound bare removed with ⟨_,same⟩ | ⟨e,others,here,file,found⟩
    · exact changed same
    · exact file (not_below (s := ⟨s,[]⟩) sound apart directory up (here ▸ List.mem_cons_self ..) (subtree.inside _ found)).2
  rcases here_searched (s := ⟨s,[]⟩) sound trailing removed with same | ⟨less,middle,fs,deep,visited,last,rfl⟩
  · exact absurd same changed
  · cases here : s.disk.listing (s.working s.drive) with
    | cons e others =>
      have member : e ∈ s.disk.listing (s.working s.drive) := here ▸ List.mem_cons_self ..
      have legal := sound.legal (DirTree.find_nonempty sound.works) member
      simp only [FileSystem.asFound,here,List.map_cons] at visited
      obtain ⟨found,deeper⟩ := first_found legal (fun _ _ _ sound removed => rmDir_keeps sound removed) sound visited
      obtain ⟨same,node⟩ := not_below (s := ⟨s,[]⟩) sound apart directory (List.prefix_refl _) member (subtree.inside _ found)
      obtain ⟨u,removed,later⟩ := deeper node
      rcases root_searched (s := ⟨s,_⟩) sound (FileSystem.not_trailing legal) removed with ⟨empty,_⟩ | ⟨f,others,first,file,found⟩
      · rw [same,FileSystem.working,List.append_assoc] at directory
        exact absurd empty (sound.tree.listing_ne directory (by simp))
      · have below := subtree.inside _ (later.subset found)
        exact absurd (not_below (s := ⟨s,[]⟩) sound apart directory up (first ▸ List.mem_cons_self ..) below).2 file
    | nil =>
      simp only [FileSystem.asFound,here,List.map_nil,List.foldlM_nil] at visited
      cases visited
      obtain ⟨removed_place,named_too,bare,below,elsewhere,_⟩ := FileSystem.rmdir_some last
      rw [named] at named_too
      cases named_too
      exact ⟨trailing,bare,below,elsewhere,here,deep here⟩

-- The directory goes, and nothing else is looked at.
theorem deserted_removes {s : FileSystem} (sound : s.Sound) (named : s.resolve path = some place)
    (directory : s.disk.find place = some .directory) (short : path.length ≤ maxDirLen) (deserted : Deserted s path place) :
    RmDir 1 ⟨s,[]⟩ path = some ⟨{s with disk := s.disk.erase place},[]⟩ := by
  obtain ⟨trailing,bare,below,elsewhere,nothing,deep⟩ := deserted
  have checked : DirPathCheck path = true := by
    have nonempty : path ≠ [] := by
      rintro rfl
      cases trailing
    simp [DirPathCheck,nonempty,short]
  have searched := FileSystem.findAll_here sound
  rw [if_neg (Nat.not_le.mpr deep),FileSystem.asFound,nothing] at searched
  have gone : s.rmdir path = some {s with disk := s.disk.erase place} := by
    simp [FileSystem.rmdir,named,directory,bare,below,elsewhere]
  simp [RmDir,checked,rmPattern,trailing,searched,RmEntry,gone]

theorem rmDir_removes_iff {s : FileSystem} (sound : s.Sound) (named : s.resolve path = some place)
    (directory : s.disk.find place = some .directory) (short : path.length ≤ maxDirLen) :
    Removes s path place ↔ Deserted s path place := by
  constructor
  · rintro ⟨fuel,after,removed,subtree⟩
    exact removes_deserted sound named directory removed subtree
  · intro deserted
    refine ⟨1,_,deserted_removes sound named directory short deserted,?_,?_,?_⟩
    · rintro _ ⟨more,rfl⟩
      show (s.disk.erase place).find (place ++ more) = none
      rw [DirTree.find_erase]
      split
      · rfl
      · rename_i further
        by_contra left
        obtain ⟨node,found⟩ := Option.ne_none_iff_exists'.mp left
        exact sound.tree.listing_ne found (by simpa using further) deserted.bare
    · rintro q ⟨⟩
    · intro q outside
      show (s.disk.erase place).find q = _
      rw [DirTree.find_erase,if_neg]
      rintro rfl
      exact outside (List.prefix_refl _)

-- A drive with two directories, of which the program works in the first one.
def twoDirectories : FileSystem :=
  ⟨[⟨[],['C',':'],.directory⟩,⟨[['C',':']],['a'],.directory⟩,⟨[['C',':']],['b'],.directory⟩],'C',fun _ => [['a']]⟩

theorem twoDirectories_sound : twoDirectories.Sound := ⟨⟨by decide,by decide⟩,by decide,by decide⟩

theorem rmDir_removes_other : Removes twoDirectories ['C',':','\\','b','\\'] [['C',':'],['b']] :=
  (rmDir_removes_iff twoDirectories_sound (by decide) (by decide) (by decide)).mpr
    ⟨by decide,by decide,by decide,by decide,by decide,by decide⟩

-- Without a backslash at the end of the path the root is searched.
theorem rmDir_searches_root : ¬ ∀ s path place, FileSystem.Sound s → s.resolve path = some place →
    s.disk.find place = some .directory → path.length ≤ maxDirLen → Removes s path place := by
  intro all
  obtain ⟨fuel,after,removed,subtree⟩ :=
    all twoDirectories ['C',':','\\','b'] [['C',':'],['b']] twoDirectories_sound (by decide) (by decide) (by decide)
  exact absurd (removes_deserted twoDirectories_sound (by decide) (by decide) removed subtree).trailing (by decide)

end PcNetwork.Libbase
