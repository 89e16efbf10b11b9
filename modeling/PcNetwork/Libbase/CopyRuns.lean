import PcNetwork.Libbase.CopyDir

namespace PcNetwork.Libbase
open FileSystem

variable {s t u v w m : FileSystem} {dst src path : FilePath} {source place : List Name} {node : Node (List UInt8)} {more : List Name}
  {name : Name}

-- So far only files are new, in the places that the source's files have at the destination.
def Quiet (s : FileSystem) (source place : List Name) (u : FileSystem) : Prop :=
  ∀ q, s.disk.find q = none → u.disk.find q ≠ none →
    u.disk.find q ≠ some .directory ∧ ∃ more bytes, q = place ++ more ∧ s.disk.find (source ++ more) = some (.file bytes)

theorem Quiet.walks (quiet : Quiet s source place u) (lasts : Lasts s u) (beside : Aside (place <+: ·) s dst) (walks : u.Walks dst) :
    s.Walks dst := by
  have old (q : List Name) (member : q ∈ s.partsOf dst dst.length) (there : u.disk.find q ≠ none) : s.disk.find q ≠ none := by
    intro missing
    obtain ⟨_,more,_,rfl,_⟩ := quiet q missing there
    exact beside _ member (List.prefix_append _ _) missing
  have parts (n : Nat) : u.partsOf dst n = s.partsOf dst n := same_parts lasts.drive lasts.directory dst n
  refine ⟨walks.front,fun i slash => ?_⟩
  have within := (List.getElem?_eq_some_iff.mp slash).1
  have whole : (s.way (dst.take i)).arrive ∈ s.partsOf dst dst.length := mem_partsOf.mpr ⟨i,within,slash,rfl⟩
  have room := walks.parts i slash
  rw [parts,same_way lasts.drive lasts.directory] at room
  by_cases there : filled s.disk.find (s.partsOf dst i) (s.way (dst.take i)).arrive = none
  · have missing : u.disk.find (s.way (dst.take i)).arrive = none := by
      by_contra there_now
      exact filled_grown (old _ whole there_now) there
    have off : (s.way (dst.take i)).arrive ∉ s.partsOf dst i := fun member => filled_made member there
    rcases room with there_now | ⟨_,inside,legal⟩
    · rw [filled_other fun member => absurd member off] at there_now
      exact absurd missing there_now
    · refine .inr ⟨there,?_,legal⟩
      -- what is above is no file that has been copied
      by_cases above : s.disk.find (s.way (dst.take i)).arrive.dropLast = none
      · by_cases member : (s.way (dst.take i)).arrive.dropLast ∈ s.partsOf dst i
        · rw [filled,if_pos ⟨above,member⟩]
        · rw [filled_other fun inside => absurd inside member] at inside
          exact absurd inside (quiet _ above (by simp [inside])).1
      · have still := lasts.there above
        rw [filled_there still] at inside
        rw [filled_there above]
        obtain ⟨node,found⟩ := Option.ne_none_iff_exists'.mp above
        cases node with
        | directory => exact found
        | file bytes =>
          obtain ⟨other,file⟩ := lasts.files _ bytes found
          cases inside.symm.trans file
  · exact .inl there

theorem walks_front {tail : FilePath} (walks : s.Walks (path ++ tail)) (nonempty : path ≠ []) : s.Walks path := by
  refine ⟨?_,fun i slash => ?_⟩
  · have front := walks.front
    rwa [List.head?_append_of_ne_nil _ nonempty] at front
  · have within := (List.getElem?_eq_some_iff.mp slash).1
    have room := walks.parts i (by rwa [List.getElem?_append_left within])
    rwa [take_behind within.le,partsOf_front within.le] at room

-- All parts of the path can be made, and have been.
structure Walked (s : FileSystem) (dst : FilePath) (t : FileSystem) : Prop where
  walks : s.Walks dst
  there : ∀ q ∈ s.partsOf dst dst.length, t.disk.find q ≠ none

-- A part of a run that ends with t, for one of the directories of the source.
structure Running (s t : FileSystem) (dst : FilePath) (source place : List Name) (u : FileSystem) (more : List Name) (dst' src' : FilePath) :
    Prop where
  quiet : Quiet s source place u
  lasts : Lasts s u
  there : u.disk.find place ≠ none
  named : u.resolve dst' = some (place ++ more)
  to_destination : u.Reaches dst' (place ++ more)
  behind : ∃ tail, dst' = dst ++ tail
  bare : more ≠ [] → withoutSlash dst' = dst'
  from_source : u.Reaches (srcDirPath dst' src') (source ++ more)
  directory : u.disk.find (source ++ more) = some .directory

variable {dst' src' : FilePath}

theorem Running.made (running : Running s t dst source place u more dst' src') (nonempty : dst ≠ []) (beside : Aside (place <+: ·) s dst)
    (later : Lasts m t) (made : (if u.IsDirExist dst' then some u else MkDir u dst') = some m) :
    Walked s dst t ∨ m = u := by
  split at made
  · exact .inr (Option.some.inj made).symm
  · rename_i unseen
    have missing : u.disk.find (place ++ more) = none := by
      by_contra there
      exact unseen ((exists_iff running.named).mpr there)
    have deeper : more ≠ [] := by
      rintro rfl
      rw [List.append_nil] at missing
      exact running.there missing
    obtain ⟨tail,rfl⟩ := running.behind
    obtain ⟨makeable,written⟩ := mkDir_returned running.lasts.sound running.named missing made
    rw [running.bare deeper] at makeable written
    refine .inl ⟨running.quiet.walks running.lasts beside (walks_front makeable.walks nonempty),fun q member => later.there ?_⟩
    rw [← same_parts running.lasts.drive running.lasts.directory,← partsOf_front (Nat.le_refl _) u tail] at member
    rw [written.find]
    exact filled_made (List.mem_append_left _ (partsOf_grows (by simp) member))

-- A directory of the source, as the run finds it.
theorem Running.next (running : Running s t dst source place u more dst' src') (lasts : Lasts u w) (quiet : Quiet s source place w)
    (legal : Legal name) (held : u.disk.find (source ++ more ++ [name]) = some .directory) :
    Running s t dst source place w (more ++ [name]) (dst' ++ '\\' :: name) (srcDirPath dst' src' ++ '\\' :: name) := by
  have reached (path : FilePath) (place : List Name) (reaches : u.Reaches path place) : w.Reaches path place :=
    (same_resolve lasts.drive lasts.directory _).trans reaches
  have to_destination := reached _ _ running.to_destination
  have from_source := reached _ _ running.from_source
  refine ⟨quiet,running.lasts.trans lasts,lasts.there running.there,?_,?_,?_,fun _ => bare_path legal,?_,?_⟩
  · rw [← List.append_assoc]
    exact to_destination.named legal
  · rw [← List.append_assoc]
    exact to_destination.next legal
  · obtain ⟨tail,same⟩ := running.behind
    exact ⟨tail ++ '\\' :: name,by rw [same,List.append_assoc]⟩
  · rw [bare_source legal,← List.append_assoc]
    exact from_source.next legal
  · rw [← List.append_assoc]
    exact lasts.directories _ held

end PcNetwork.Libbase
