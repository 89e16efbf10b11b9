import PcNetwork.Libbase.FilePaths
import Mathlib.Logic.Function.Basic

namespace PcNetwork.Libbase

def withoutSlash (path : FilePath) : FilePath := if path.getLast? = some '\\' then path.dropLast else path

-- What stands in front of a backslash is made where it is missing.
def MkPart (tmpDirPath : FilePath) (s : FileSystem) (i : Nat) : Option FileSystem :=
  if tmpDirPath[i]? = some '\\' then
    if s.IsDirExist (tmpDirPath.take i) then some s else s.mkdir (tmpDirPath.take i)
  else some s

-- No result where the call throws, and for a path that does not fit into the buffer.
def MkDir (s : FileSystem) (pDirPath : FilePath) : Option FileSystem :=
  if DirPathCheck pDirPath then
    if s.IsDirExist pDirPath then some s
    else if maxDirLen ≤ pDirPath.length then none
    else do
      let s ← (List.range pDirPath.length).foldlM (MkPart (withoutSlash pDirPath)) s
      s.mkdir (withoutSlash pDirPath)
  else none

namespace FileSystem

-- The program as it is, on a disk with other things at its places.
structure Written (s : FileSystem) (content : List Name → Option (Node (List UInt8))) (t : FileSystem) : Prop where
  sound : t.Sound
  drive : t.drive = s.drive
  directory : t.directory = s.directory
  find : ∀ q, t.disk.find q = content q

-- Where the characters in front of the first backslashes lead to.
def partsOf (s : FileSystem) (path : FilePath) (n : Nat) : List (List Name) :=
  ((List.range n).filter fun i => path[i]? = some '\\').map fun i => (s.way (path.take i)).arrive

-- Directories at these places, where nothing is.
def filled (content : List Name → Option (Node (List UInt8))) (made : List (List Name)) (q : List Name) : Option (Node (List UInt8)) :=
  if content q = none ∧ q ∈ made then some .directory else content q

-- A directory can be made there.
structure Room (content : List Name → Option (Node (List UInt8))) (q : List Name) : Prop where
  free : content q = none
  inside : content q.dropLast = some .directory
  legal : Legal (q.getLastD []) = true

-- What stands in front of a backslash is there, or can be made when what stands in front of
-- the earlier ones has been.
structure Walks (s : FileSystem) (path : FilePath) : Prop where
  front : path.head? ≠ some '\\'
  parts : ∀ i, path[i]? = some '\\' → filled s.disk.find (s.partsOf path i) (s.way (path.take i)).arrive ≠ none ∨
    Room (filled s.disk.find (s.partsOf path i)) (s.way (path.take i)).arrive

-- What MkDir makes: the whole is missing when all parts are there, and has room.
structure Makeable (s : FileSystem) (path : FilePath) (place : List Name) : Prop where
  walks : Walks s path
  named : s.resolve path = some place
  room : Room (filled s.disk.find (s.partsOf path path.length)) place

variable {s t u : FileSystem} {path : FilePath} {place : List Name} {name : Name} {n : Nat}
  {content : List Name → Option (Node (List UInt8))} {made : List (List Name)}

theorem filled_there (there : content q ≠ none) : filled content made q = content q := if_neg fun missing => there missing.1

theorem filled_made (member : q ∈ made) : filled content made q ≠ none := by
  unfold filled
  split
  · simp
  · rename_i off
    exact fun missing => off ⟨missing,member⟩

theorem filled_other (off : q ∈ made → content q ≠ none) : filled content made q = content q :=
  if_neg fun missing => off missing.2 missing.1

theorem filled_grown (there : content q ≠ none) : filled content made q ≠ none := by rwa [filled_there there]

theorem filled_snoc (free : filled content made place = none) :
    filled content (made ++ [place]) = Function.update (filled content made) place (some .directory) := by
  funext q
  by_cases same : q = place
  · subst same
    have missing : content q = none := by
      by_contra there
      exact filled_grown there free
    rw [Function.update_self,filled,if_pos ⟨missing,by simp⟩]
  · rw [Function.update_of_ne same]
    unfold filled
    simp [same]

theorem filled_snoc_there (there : filled content made place ≠ none) : filled content (made ++ [place]) = filled content made := by
  funext q
  by_cases same : q = place
  · subst same
    by_cases missing : content q = none
    · have member : q ∈ made := by
        by_contra off
        rw [filled_other fun member => absurd member off] at there
        exact there missing
      rw [filled,if_pos ⟨missing,by simp⟩,filled,if_pos ⟨missing,member⟩]
    · rw [filled_there missing,filled_there missing]
  · unfold filled
    simp [same]

theorem partsOf_slash (slash : path[n]? = some '\\') : s.partsOf path (n+1) = s.partsOf path n ++ [(s.way (path.take n)).arrive] := by
  simp [partsOf,List.range_succ,slash]

theorem partsOf_plain (plain : path[n]? ≠ some '\\') : s.partsOf path (n+1) = s.partsOf path n := by
  simp [partsOf,List.range_succ,plain]

theorem partsOf_beyond (path : FilePath) (k : Nat) : s.partsOf path (path.length+k) = s.partsOf path path.length := by
  induction k with
  | zero => rfl
  | succ k ih => rw [← Nat.add_assoc,partsOf_plain (by simp),ih]

theorem mem_partsOf : q ∈ s.partsOf path n ↔ ∃ i < n, path[i]? = some '\\' ∧ (s.way (path.take i)).arrive = q := by
  simp [partsOf,and_assoc]

theorem create_written (sound : s.Sound) (inside : s.disk.find place = some .directory) (legal : Legal name)
    (free : s.disk.find (place ++ [name]) ≠ some .directory) (node : Node (List UInt8)) :
    ∃ t, s.create (place ++ [name]) node = some t ∧ Written s (Function.update s.disk.find (place ++ [name]) (some node)) t := by
  have bare := sound.tree.unlisted free (by simp)
  have found : ∀ q, (s.disk.enter ⟨place,name,node⟩).find q = Function.update s.disk.find (place ++ [name]) (some node) q := by
    intro q
    rw [DirTree.find_enter,Function.update_apply]
    rfl
  refine ⟨{s with disk := s.disk.enter ⟨place,name,node⟩},by simp [create,inside,legal],⟨⟨?_,?_,?_⟩,rfl,rfl,found⟩⟩
  · exact sound.tree.enter inside bare
  · intro e member deep
    rcases List.mem_append.mp member with old | new
    · exact sound.named e (List.mem_filter.mp old).1 deep
    · obtain rfl := List.mem_singleton.mp new
      exact legal
  · refine (found _).trans ?_
    rw [Function.update_of_ne]
    · exact sound.works
    · rintro here
      exact free (here ▸ sound.works)

theorem create_inside (created : s.create place node = some t) :
    s.disk.find place.dropLast = some .directory ∧ Legal (place.getLastD []) := by
  unfold create at created
  split at created
  · rename_i fit
    exact fit
  · cases created

theorem mkdir_made (sound : s.Sound) (named : s.resolve path = some place) (room : Room s.disk.find place) :
    ∃ t, s.mkdir path = some t ∧ Written s (Function.update s.disk.find place (some .directory)) t := by
  obtain ⟨free,inside,legal⟩ := room
  obtain ⟨above,name,rfl⟩ := place.eq_nil_or_concat.resolve_left (by rintro rfl; cases legal)
  simp only [List.concat_eq_append,List.dropLast_concat,List.getLastD_concat] at named free inside legal ⊢
  obtain ⟨t,created,written⟩ := create_written sound inside legal (by simp [free]) .directory
  exact ⟨t,by simp [mkdir,named,free,created],written⟩

theorem mkdir_room (named : s.resolve path = some place) (ran : s.mkdir path = some t) : Room s.disk.find place := by
  unfold mkdir at ran
  rw [named] at ran
  simp only [Option.bind_eq_bind,Option.bind_some] at ran
  split at ran
  · rename_i free
    obtain ⟨inside,legal⟩ := create_inside ran
    exact ⟨free,inside,legal⟩
  · cases ran

theorem same_way (drive : t.drive = s.drive) (directory : t.directory = s.directory) (path : FilePath) : t.way path = s.way path := by
  simp [way,depart,working,drive,directory]

theorem same_resolve (drive : t.drive = s.drive) (directory : t.directory = s.directory) (path : FilePath) :
    t.resolve path = s.resolve path := by
  simp [resolve,same_way drive directory]

theorem same_parts (drive : t.drive = s.drive) (directory : t.directory = s.directory) (path : FilePath) (n : Nat) :
    t.partsOf path n = s.partsOf path n := by
  simp [partsOf,same_way drive directory]

theorem resolve_take (named : s.resolve path = some place) (some_taken : 0 < i) :
    s.resolve (path.take i) = some (s.way (path.take i)).arrive := by
  unfold resolve at named ⊢
  split at named
  · cases named
  · rename_i proper
    rw [if_neg]
    obtain ⟨k,rfl⟩ := Nat.exists_eq_add_of_lt some_taken
    rcases path with _ | ⟨c,_ | ⟨d,rest⟩⟩
    · simp at proper
    · simp [rooted]
    · cases k <;> simp [rooted,Nat.add_comm 0] at proper ⊢
      exact proper

theorem exists_iff (named : s.resolve path = some place) : s.IsDirExist path = true ↔ s.disk.find place ≠ none := by
  simp [IsDirExist,named,Option.isSome_iff_ne_none]

-- One backslash of the loop. In front of the first character there is nothing to be made.
theorem part_returned (named : s.resolve path = some place) (before : Written s (filled s.disk.find (s.partsOf path i)) t)
    (slash : path[i]? = some '\\') (ran : MkPart path t i = some u) :
    0 < i ∧ (t.disk.find (s.way (path.take i)).arrive ≠ none ∨ Room t.disk.find (s.way (path.take i)).arrive) := by
  rw [MkPart,if_pos slash] at ran
  have behind : 0 < i := by
    by_contra front
    obtain rfl := Nat.eq_zero_of_not_pos front
    cases ran
  have named := resolve_take named behind
  rw [← same_resolve before.drive before.directory] at named
  refine ⟨behind,?_⟩
  split at ran
  · rename_i there
    exact .inl ((exists_iff named).mp there)
  · exact .inr (mkdir_room named ran)

theorem part_made (named : s.resolve path = some place) (before : Written s (filled s.disk.find (s.partsOf path i)) t)
    (slash : path[i]? = some '\\') (behind : 0 < i)
    (room : t.disk.find (s.way (path.take i)).arrive ≠ none ∨ Room t.disk.find (s.way (path.take i)).arrive) :
    ∃ u, MkPart path t i = some u ∧ Written s (filled s.disk.find (s.partsOf path (i+1))) u := by
  have named := resolve_take named behind
  rw [← same_resolve before.drive before.directory] at named
  have same : t.disk.find = filled s.disk.find (s.partsOf path i) := funext before.find
  rw [MkPart,if_pos slash,partsOf_slash slash]
  by_cases there : t.disk.find (s.way (path.take i)).arrive = none
  · obtain ⟨u,made,written⟩ := mkdir_made before.sound named (room.resolve_left (not_not.mpr there))
    refine ⟨u,by rw [if_neg (by simp [exists_iff named,there]),made],written.sound,written.drive.trans before.drive,
      written.directory.trans before.directory,fun q => ?_⟩
    rw [filled_snoc (by rwa [← same]),written.find,same]
  · refine ⟨t,if_pos ((exists_iff named).mpr there),before.sound,before.drive,before.directory,fun q => ?_⟩
    rw [filled_snoc_there (by rwa [← same]),before.find]

theorem parts_returned (sound : s.Sound) (named : s.resolve path = some place) (ran : (List.range n).foldlM (MkPart path) s = some t) :
    Written s (filled s.disk.find (s.partsOf path n)) t ∧ ∀ i < n, path[i]? = some '\\' → 0 < i ∧
      (filled s.disk.find (s.partsOf path i) (s.way (path.take i)).arrive ≠ none ∨
        Room (filled s.disk.find (s.partsOf path i)) (s.way (path.take i)).arrive) := by
  induction n generalizing t with
  | zero =>
    cases ran
    refine ⟨⟨sound,rfl,rfl,fun q => ?_⟩,fun _ none => absurd none (Nat.not_lt_zero _)⟩
    exact (filled_other fun member => absurd member List.not_mem_nil).symm
  | succ n ih =>
    rw [List.range_succ,List.foldlM_append] at ran
    obtain ⟨u,parts,last⟩ := Option.bind_eq_some_iff.mp ran
    have last : MkPart path u n = some t := by simpa using last
    obtain ⟨before,earlier⟩ := ih parts
    by_cases slash : path[n]? = some '\\'
    · obtain ⟨behind,room⟩ := part_returned named before slash last
      obtain ⟨v,made,written⟩ := part_made named before slash behind room
      cases last.symm.trans made
      refine ⟨written,fun i within here => ?_⟩
      rcases Nat.lt_succ_iff_lt_or_eq.mp within with less | rfl
      · exact earlier i less here
      · rw [← funext before.find]
        exact ⟨behind,room⟩
    · rw [MkPart,if_neg slash] at last
      cases last
      rw [partsOf_plain slash]
      refine ⟨before,fun i within here => ?_⟩
      rcases Nat.lt_succ_iff_lt_or_eq.mp within with less | rfl
      · exact earlier i less here
      · exact absurd here slash

theorem parts_made (sound : s.Sound) (named : s.resolve path = some place) (walks : Walks s path) (n : Nat) :
    ∃ t, (List.range n).foldlM (MkPart path) s = some t ∧ Written s (filled s.disk.find (s.partsOf path n)) t := by
  induction n with
  | zero => exact ⟨s,rfl,sound,rfl,rfl,fun q => (filled_other fun member => absurd member List.not_mem_nil).symm⟩
  | succ n ih =>
    obtain ⟨t,ran,before⟩ := ih
    have round : ∃ u, MkPart path t n = some u ∧ Written s (filled s.disk.find (s.partsOf path (n+1))) u := by
      by_cases slash : path[n]? = some '\\'
      · have behind : 0 < n := by
          apply Nat.pos_of_ne_zero
          rintro rfl
          exact walks.front (List.head?_eq_getElem?.trans slash)
        refine part_made named before slash behind ?_
        rw [funext before.find]
        exact walks.parts n slash
      · rw [partsOf_plain slash]
        exact ⟨t,if_neg slash,before⟩
    obtain ⟨u,made,written⟩ := round
    exact ⟨u,by simp [List.range_succ,ran,made],written⟩

theorem withoutSlash_cases (path : FilePath) :
    path.getLast? ≠ some '\\' ∧ withoutSlash path = path ∨ path = withoutSlash path ++ ['\\'] := by
  unfold withoutSlash
  split
  · rename_i trailing
    obtain ⟨most,rfl⟩ := List.getLast?_eq_some_iff.mp trailing
    exact .inr (by simp)
  · rename_i bare
    exact .inl ⟨bare,rfl⟩

theorem resolve_arrive (named : s.resolve path = some place) : (s.way path).arrive = place := by
  unfold resolve at named
  split at named
  · cases named
  · exact Option.some.inj named

-- Whether a path names a place is a matter of its characters.
theorem resolve_other (t : FileSystem) (named : s.resolve path = some place) : t.resolve path = some (t.way path).arrive := by
  unfold resolve at named ⊢
  split at named
  · cases named
  · rename_i proper
    exact if_neg proper

theorem named_checked (named : s.resolve path = some place) (short : path.length < maxDirLen) : DirPathCheck path = true := by
  have nonempty : path ≠ [] := by
    rintro rfl
    cases named
  simp [DirPathCheck,nonempty,short.le]

-- The loop runs over one character more where a backslash has been taken off the end.
theorem partsOf_whole (s : FileSystem) (path : FilePath) :
    s.partsOf (withoutSlash path) path.length = s.partsOf (withoutSlash path) (withoutSlash path).length := by
  rcases withoutSlash_cases path with ⟨_,same⟩ | trailing
  · rw [same]
  · have length := congrArg List.length trailing
    rw [List.length_append] at length
    rw [length,List.length_singleton]
    exact partsOf_beyond _ 1

theorem mkDir_made (sound : s.Sound) (named : s.resolve path = some place) (short : path.length < maxDirLen)
    (missing : s.disk.find place = none) (makeable : Makeable s (withoutSlash path) place) :
    ∃ t, MkDir s path = some t ∧
      Written s (filled s.disk.find (s.partsOf (withoutSlash path) (withoutSlash path).length ++ [place])) t := by
  obtain ⟨walks,stripped,room⟩ := makeable
  have unseen : ¬ s.IsDirExist path = true := by simp [exists_iff named,missing]
  obtain ⟨t,ran,parts⟩ := parts_made sound stripped walks path.length
  rw [partsOf_whole] at parts
  have same : t.disk.find = filled s.disk.find _ := funext parts.find
  obtain ⟨u,last,written⟩ := mkdir_made parts.sound ((same_resolve parts.drive parts.directory _).trans stripped) (same ▸ room)
  refine ⟨u,?_,written.sound,written.drive.trans parts.drive,written.directory.trans parts.directory,fun q => ?_⟩
  · rw [MkDir,if_pos (named_checked named short),if_neg unseen,if_neg (Nat.not_le.mpr short),ran]
    exact last
  · rw [filled_snoc room.free,written.find,same]

-- Only a drive is another place without the backslash. One that is missing has nothing on it,
-- so that nothing is made there.
theorem stripped_named (sound : s.Sound) (named : s.resolve (path ++ ['\\']) = some place) (missing : s.disk.find place = none)
    (stripped : s.resolve path = some last) (room : Room (filled s.disk.find (s.partsOf path path.length)) last) : last = place := by
  by_cases plain : s.Open path
  · exact Option.some.inj ((reaches_open stripped plain).symm.trans named)
  · exfalso
    have shape : (∃ c, path = [c] ∧ isSeparator c = true) ∨ ∃ c, path = [c,':'] ∧ s.directory c ≠ [] := by
      by_contra other
      push Not at other
      exact plain ⟨fun c same => by simpa using other.1 c same,other.2⟩
    rcases shape with ⟨c,rfl,separator⟩ | ⟨c,rfl,deep⟩
    · have outside : s.resolve [c,'\\'] = none := if_pos (.inr ⟨by simp [rooted,separator],by simp [rooted,isSeparator]⟩)
      cases outside.symm.trans named
    · obtain rfl : place = root c := by
        simpa [way,depart,rooted,isSeparator,Way.arrive] using (resolve_arrive named).symm
      obtain rfl : last = root c ++ s.directory c := by
        simpa [way,depart,rooted,working,Way.arrive] using (resolve_arrive stripped).symm
      have there : ∀ q ∈ s.partsOf [c,':'] [c,':'].length, s.disk.find q ≠ none := by
        intro q member
        obtain ⟨i,within,slash,rfl⟩ := mem_partsOf.mp member
        have first : i = 0 := by
          by_contra
          obtain rfl : i = 1 := by
            simp at within
            omega
          cases slash
        subst first
        have works := sound.works
        simp [way,depart,rooted,Way.arrive,works]
      have inside := room.inside
      rw [filled_other (there _),List.dropLast_append_of_ne_nil deep] at inside
      exact sound.tree.up_there (by rw [inside]; simp) (List.prefix_append _ _) (root_ne c) missing

theorem mkDir_returned (sound : s.Sound) (named : s.resolve path = some place) (missing : s.disk.find place = none)
    (ran : MkDir s path = some t) : Makeable s (withoutSlash path) place ∧
      Written s (filled s.disk.find (s.partsOf (withoutSlash path) (withoutSlash path).length ++ [place])) t := by
  have unseen : s.IsDirExist path = false := by simp [IsDirExist,named,missing]
  have whole := ran
  unfold MkDir at ran
  rw [unseen] at ran
  split at ran
  · split at ran
    · rename_i seen
      cases seen
    · split at ran
      · cases ran
      · rename_i short
        have short := Nat.not_le.mp short
        obtain ⟨u,parts,made⟩ := Option.bind_eq_some_iff.mp ran
        obtain ⟨last,last_named,_⟩ := Option.bind_eq_some_iff.mp made
        have stripped := resolve_other s last_named
        obtain ⟨written,rooms⟩ := parts_returned sound stripped parts
        have room := mkdir_room ((same_resolve written.drive written.directory _).trans stripped) made
        rw [funext written.find,partsOf_whole] at room
        have same : (s.way (withoutSlash path)).arrive = place := by
          rcases withoutSlash_cases path with ⟨_,bare⟩ | trailing
          · rw [bare]
            exact resolve_arrive named
          · exact stripped_named sound (by rw [← trailing]; exact named) missing stripped room
        rw [same] at stripped room
        have shorter : (withoutSlash path).length ≤ path.length := by
          unfold withoutSlash
          split <;> simp
        have walks : Walks s (withoutSlash path) := by
          refine ⟨fun front => ?_,fun i slash => ?_⟩
          · have slash : (withoutSlash path)[0]? = some '\\' := List.head?_eq_getElem?.symm.trans front
            have some_there := (List.getElem?_eq_some_iff.mp slash).1
            exact absurd (rooms 0 (by omega) slash).1 (lt_irrefl 0)
          · have within := (List.getElem?_eq_some_iff.mp slash).1
            exact (rooms i (by omega) slash).2
        have makeable : Makeable s (withoutSlash path) place := ⟨walks,stripped,room⟩
        obtain ⟨v,again,filled⟩ := mkDir_made sound named short missing makeable
        cases again.symm.trans whole
        exact ⟨makeable,filled⟩
  · cases ran

end FileSystem
end PcNetwork.Libbase
