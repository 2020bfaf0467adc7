import Phrasebook.Ignore.Walk
import Phrasebook.Settings.DocumentFilter
import Phrasebook.Text.Sorting

/-!
The documents of a project: all files below its root that are neither ignored nor refused by the
patterns, in the order of their paths.
-/

namespace Phrasebook.Workspace

inductive Error where
  | filter (error : DocumentFilter.Error)
  | notDirectory (root : Path)
deriving DecidableEq, Repr

def Error.message : Error → Text
  | filter e => e.message
  | notDirectory root => "Failed to read directory: ".toList ++ root.toText

def findDocuments (files : FileSystem) (root : Path) (s : Settings) : Except Error (List Path) :=
  if !files.isDirectoryAt root then .error (.notDirectory root)
  else
    match DocumentFilter.ofSettings root s with
    | .error e => .error (.filter e)
    | .ok f =>
      let found := (Ignore.walk files root).filter fun e => e.node.isFile && f.isDocument e.path
      .ok (Sorting.sort Path.le (found.map (·.path)))

end Phrasebook.Workspace
