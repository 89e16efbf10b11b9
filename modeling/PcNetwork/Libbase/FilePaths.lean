import PcNetwork.Libbase.FileSystem

namespace PcNetwork.Libbase.FileSystem

variable {s : FileSystem} {path : FilePath} {place : List Name} {name : Name}

-- The path with a backslash behind it leads to the place.
def Reaches (s : FileSystem) (path : FilePath) (place : List Name) : Prop := s.resolve (path ++ ['\\']) = some place

-- Not a separator alone, and not a drive alone that is worked on below its root: with a
-- backslash behind it such a path names something else.
structure Open (s : FileSystem) (path : FilePath) : Prop where
  slash : ∀ c, path = [c] → isSeparator c = false
  drive : ∀ c, path = [c,':'] → s.directory c = []

@[simp] theorem descend_nil (place : List Name) : descend place [] = place := if_pos (.inl rfl)

theorem descend_legal (place : List Name) (legal : Legal name) : descend place name = place ++ [name] := by
  obtain ⟨nonempty,no_dot,no_dots,_⟩ := legal_iff.mp legal
  simp [descend,nonempty,no_dot,no_dots]

theorem legal_plain (legal : Legal name) : ∀ c ∈ name, isSeparator c = false ∧ c ≠ ':' := by
  intro c member
  have apart := (legal_iff.mp legal).2.2.2 c member
  simp [illegal] at apart
  simp [isSeparator,apart]

@[simp] theorem walk_separator (way : Way) : way.walk '\\' = ⟨way.arrive,[]⟩ := rfl

theorem walk_plain (plain : ∀ c ∈ name, isSeparator c = false) (way : Way) :
    name.foldl Way.walk way = ⟨way.place,way.name ++ name⟩ := by
  induction name generalizing way with
  | nil => simp
  | cons c rest ih =>
    rw [List.foldl_cons,ih fun d member => plain d (List.mem_cons_of_mem _ member)]
    simp [Way.walk,plain c (List.mem_cons_self ..)]

-- Where a backslash follows, what comes behind it does not change where the path begins.
theorem way_behind (path : FilePath) (more : FilePath) (plain : more.head? ≠ some ':') :
    s.way (path ++ '\\' :: more) = more.foldl Way.walk (s.way (path ++ ['\\'])) := by
  rcases path with _ | ⟨c,_ | ⟨d,rest⟩⟩
  · simp [way,depart,rooted,← List.head?_eq_getElem?,plain,isSeparator]
  · simp [way,depart,rooted]
  · by_cases drive : d = ':'
    · cases rest <;> simp [way,depart,rooted,drive]
    · simp [way,depart,rooted,drive]

theorem way_closed (path : FilePath) : ∃ place, s.way (path ++ ['\\']) = ⟨place,[]⟩ := by
  rcases path with _ | ⟨c,_ | ⟨d,rest⟩⟩
  · simp [way,depart]
  · simp [way,depart]
  · by_cases drive : d = ':'
    · simp [way,depart,drive]
    · simp [way,depart,drive]

theorem Reaches.way (reaches : s.Reaches path place) : s.way (path ++ ['\\']) = ⟨place,[]⟩ := by
  obtain ⟨there,closed⟩ := s.way_closed path
  unfold Reaches resolve at reaches
  split at reaches
  · cases reaches
  · rw [closed] at reaches ⊢
    cases reaches
    rw [Way.arrive,descend_nil]

theorem Reaches.resolve (reaches : s.Reaches path place) (c : Char) (rest : FilePath) (plain : isSeparator c = false ∧ c ≠ ':') :
    s.resolve (path ++ '\\' :: c :: rest) = some ((c :: rest).foldl Way.walk ⟨place,[]⟩).arrive := by
  have behind := s.way_behind path (c :: rest) (by simpa using plain.2)
  rw [reaches.way] at behind
  unfold Reaches FileSystem.resolve at reaches
  rw [FileSystem.resolve,behind,if_neg]
  split at reaches
  · cases reaches
  · rename_i here
    rcases path with _ | ⟨c,_ | ⟨d,rest⟩⟩
    · simp [rooted,plain]
    · simpa [rooted] using here
    · simpa [rooted] using here

theorem Reaches.named (reaches : s.Reaches path place) (legal : Legal name) :
    s.resolve (path ++ '\\' :: name) = some (place ++ [name]) := by
  obtain ⟨c,rest,rfl⟩ := List.exists_cons_of_ne_nil (legal_iff.mp legal).1
  have plain := legal_plain legal
  rw [reaches.resolve c rest (plain c (List.mem_cons_self ..)),walk_plain fun d member => (plain d member).1]
  exact congrArg some (descend_legal place legal)

theorem Reaches.next (reaches : s.Reaches path place) (legal : Legal name) :
    s.Reaches (path ++ '\\' :: name) (place ++ [name]) := by
  obtain ⟨c,rest,rfl⟩ := List.exists_cons_of_ne_nil (legal_iff.mp legal).1
  have plain := legal_plain legal
  have named := reaches.resolve c (rest ++ ['\\']) (plain c (List.mem_cons_self ..))
  rw [← List.cons_append,List.foldl_append,walk_plain fun d member => (plain d member).1] at named
  rw [Reaches,List.append_assoc,List.cons_append,named]
  simp [Way.arrive,descend_legal place legal]

theorem Reaches.way_name (reaches : s.Reaches path place) (legal : Legal name) : s.way (path ++ '\\' :: name) = ⟨place,name⟩ := by
  have plain := legal_plain legal
  rw [way_behind,reaches.way,walk_plain fun c member => (plain c member).1]
  · rfl
  · intro head
    exact (plain _ (List.mem_of_head? head)).2 rfl

theorem reaches_open (named : s.resolve path = some place) (plain : s.Open path) : s.Reaches path place := by
  unfold resolve at named
  split at named
  · cases named
  · rename_i proper
    cases named
    have behind : s.way (path ++ ['\\']) = ⟨(s.way path).arrive,[]⟩ := by
      rcases path with _ | ⟨c,_ | ⟨d,rest⟩⟩
      · simp at proper
      · simp [way,depart,rooted]
      · by_cases drive : d = ':'
        · cases rest with
          | nil =>
            have outermost := plain.drive c (by rw [drive])
            simp [way,depart,rooted,drive,working,outermost,Way.arrive,isSeparator]
          | cons => simp [way,depart,rooted,drive]
        · simp [way,depart,rooted,drive]
    rw [Reaches,resolve,behind,if_neg]
    · simp [Way.arrive]
    · rcases path with _ | ⟨c,_ | ⟨d,rest⟩⟩
      · simp at proper
      · simp [rooted,plain.slash c rfl]
      · simpa [rooted] using proper

end PcNetwork.Libbase.FileSystem
