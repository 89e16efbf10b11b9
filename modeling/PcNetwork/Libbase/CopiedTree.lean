import PcNetwork.Libbase.CopyRuns

namespace PcNetwork.Libbase
open FileSystem

variable {s t : FileSystem} {dst src path : FilePath} {source place : List Name} {node : Node (List UInt8)} {more : List Name} {name : Name}

def Concerned (source place q : List Name) : Prop := source <+: q ∨ place <+: q

-- What the source holds has its place at the destination.
structure Placed (s : FileSystem) (pDst : FilePath) (source place : List Name) : Prop where
  unmoved : ∀ more, source <+: place ++ more → put (s.disk.find (source ++ more)) (s.disk.find (place ++ more)) = s.disk.find (place ++ more)
  files : ∀ more content, s.disk.find (source ++ more) = some (.file content) → s.disk.find (place ++ more) ≠ some .directory
  directories : ∀ more name content, s.disk.find (source ++ more ++ [name]) ≠ none → s.disk.find (place ++ more) ≠ some (.file content)
  making : ∀ more, s.disk.find (source ++ more) = some .directory → s.disk.find (place ++ more) = none →
    Makes (Concerned source place) s pDst place

end PcNetwork.Libbase
