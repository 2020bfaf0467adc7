import Phrasebook.FileTree.Basic

/-!
Everything that lies below a directory, in the order of a walk: an entry, then what lies in it,
entries by the bytes of their names. Links are met and not followed. A directory whose path has
grown too long is met like any other, but nothing in it is.
-/

namespace Phrasebook

namespace FileTree

/-- Something met on a walk and its path, which continues that of the start. -/
structure Found where
  path : Path
  node : FileTree

mutual

def foundIn (path : Path) : FileTree → List Found
  | directory es => if pathLimit < path.length then [] else foundAmong path es
  | _ => []

def foundAmong (path : Path) : List (Bytes × FileTree) → List Found
  | [] => []
  | (name, t) :: rest =>
    ⟨Path.join path name, t⟩ :: foundIn (Path.join path name) t ++ foundAmong path rest

end

/-- A lone hyphen names the standard input and no file. -/
def isStandardInput (p : Path) : Bool := p.components = [.named [45]]

end FileTree

/-- All that a walk from a path meets. The start itself counts when it is a file; a link as the
start is followed. -/
def FileSystem.walkFrom (s : FileSystem) (start : Path) : List FileTree.Found :=
  if FileTree.isStandardInput start then []
  else
    match s.get start with
    | .ok (.directory es) => FileTree.foundIn start (.directory es)
    | .ok u => [⟨start, u⟩]
    | .error _ => []

end Phrasebook
