import PcNetwork.Library.DirTree

namespace PcNetwork.Libbase

def maxFilePathLen : Nat := 1024
def maxDirLen : Nat := 1024

abbrev Name := List Char
abbrev FilePath := List Char

def FilePathCheck (pFilePath : FilePath) : Bool := pFilePath ≠ [] ∧ pFilePath.length ≤ maxFilePathLen

def DirPathCheck (pDirPath : FilePath) : Bool := pDirPath ≠ [] ∧ pDirPath.length ≤ maxDirLen

def isSeparator (c : Char) : Bool := c = '\\' || c = '/'

def illegal : List Char := ['\\','/',':','*','?','"','<','>','|']

-- What a file or directory can be called.
def Legal (name : Name) : Bool := !name.isEmpty && name != ['.'] && name != ['.','.'] && name.all fun c => !illegal.contains c

-- The drives are at the top of the disk. The program works on one of them, and on each
-- in a directory below the root.
structure FileSystem where
  disk : DirTree Name (List UInt8)
  drive : Char
  directory : Char → List Name

namespace FileSystem

def root (drive : Char) : List Name := [[drive,':']]

def working (s : FileSystem) (drive : Char) : List Name := root drive ++ s.directory drive

structure Sound (s : FileSystem) : Prop where
  tree : s.disk.Sound
  named : ∀ e ∈ s.disk, e.above ≠ [] → Legal e.name
  works : s.disk.find (s.working s.drive) = some .directory

-- The root of a drive is above itself.
def descend (place : List Name) (name : Name) : List Name :=
  if name = [] ∨ name = ['.'] then place
  else if name = ['.','.'] then if place.length ≤ 1 then place else place.dropLast
  else place ++ [name]

-- The place reached so far, and the characters of the next name.
structure Way where
  place : List Name
  name : Name

def Way.arrive (way : Way) : List Name := descend way.place way.name

def Way.walk (way : Way) (c : Char) : Way :=
  if isSeparator c then ⟨way.arrive,[]⟩ else ⟨way.place,way.name ++ [c]⟩

def rooted (path : FilePath) : Bool := path.head?.any isSeparator

-- Where a path begins, and what of it is still to be walked.
def depart (s : FileSystem) (path : FilePath) : List Name × FilePath :=
  let drive := if path[1]? = some ':' then path.headD s.drive else s.drive
  let rest := if path[1]? = some ':' then path.drop 2 else path
  (if rooted rest then root drive else s.working drive,rest)

def way (s : FileSystem) (path : FilePath) : Way :=
  (s.depart path).2.foldl Way.walk ⟨(s.depart path).1,[]⟩

-- The empty path names nothing, and one that begins with two separators names a place
-- on another machine.
def resolve (s : FileSystem) (path : FilePath) : Option (List Name) :=
  if path = [] ∨ rooted path ∧ rooted (path.drop 1) then none else some (s.way path).arrive

-- Whatever is there, a file as well.
def IsDirExist (s : FileSystem) (path : FilePath) : Bool := ((s.resolve path).bind s.disk.find).isSome

-- In a directory, and under a name that it can have.
def create (s : FileSystem) (place : List Name) (node : Node (List UInt8)) : Option FileSystem :=
  if s.disk.find place.dropLast = some .directory ∧ Legal (place.getLastD []) then
    some {s with disk := s.disk.enter ⟨place.dropLast,place.getLastD [],node⟩}
  else none

def mkdir (s : FileSystem) (path : FilePath) : Option FileSystem := do
  let place ← s.resolve path
  if s.disk.find place = none then s.create place .directory else none

def remove (s : FileSystem) (path : FilePath) : Option FileSystem := do
  let place ← s.resolve path
  match s.disk.find place with
  | some (.file _) => some {s with disk := s.disk.erase place}
  | _ => none

-- What is removed has nothing in it, and is neither the root of a drive nor what the
-- program works in.
def rmdir (s : FileSystem) (path : FilePath) : Option FileSystem := do
  let place ← s.resolve path
  if s.disk.find place = some .directory ∧ s.disk.listing place = [] ∧ 1 < place.length ∧ place ≠ s.working s.drive then
    some {s with disk := s.disk.erase place}
  else none

def asFound (s : FileSystem) (place : List Name) : List (Name × Node (List UInt8)) := (s.disk.listing place).map fun e => (e.name,e.node)

-- What _findfirsti64 and _findnexti64 find for *.* behind the path of a directory, and the
-- place where they find it. All but a root hold themselves and what is above them.
def findAll (s : FileSystem) (pattern : FilePath) : Option (List Name × List (Name × Node (List UInt8))) := do
  let front := pattern.take (pattern.length-3)
  let place ← if front = [] then some (s.working s.drive) else s.resolve front
  if s.disk.find place = some .directory then
    let dots := if place.length ≤ 1 then [] else [(['.'],Node.directory),(['.','.'],Node.directory)]
    let found := dots ++ s.asFound place
    if found = [] then none else some (place,found)
  else none

variable {s t : FileSystem} {path : FilePath} {place : List Name} {name : Name}

theorem legal_iff : Legal name ↔ name ≠ [] ∧ name ≠ ['.'] ∧ name ≠ ['.','.'] ∧ ∀ c ∈ name, c ∉ illegal := by
  simp [Legal,and_assoc]

theorem not_trailing (legal : Legal name) : (path ++ '\\' :: name).getLast? ≠ some '\\' := by
  obtain ⟨nonempty,_,_,legal⟩ := legal_iff.mp legal
  obtain ⟨most,last,rfl⟩ := name.eq_nil_or_concat.resolve_left nonempty
  intro same
  simp only [List.concat_eq_append,← List.cons_append,← List.append_assoc,List.getLast?_concat,Option.some.injEq] at same
  subst same
  exact legal '\\' (by simp) (by simp [illegal])

theorem root_ne (drive : Char) : root drive ≠ [] := List.cons_ne_nil _ _

theorem Sound.root (sound : s.Sound) : s.disk.find (root s.drive) = some .directory :=
  sound.tree.up sound.works (List.prefix_append _ _) (root_ne _)

theorem Sound.legal (sound : s.Sound) (inside : place ≠ []) (member : e ∈ s.disk.listing place) : Legal e.name := by
  obtain ⟨member,above⟩ := List.mem_filter.mp member
  refine sound.named e member ?_
  rw [decide_eq_true_eq] at above
  exact above ▸ inside

end FileSystem
end PcNetwork.Libbase
