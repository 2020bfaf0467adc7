import Phrasebook.Resources.Name
import Phrasebook.FileTree.Walk
import Phrasebook.Text.Sorting

/-!
Documents on disk below a root directory. A name is looked up segment by segment, and is listed
when its file name is text. What cannot be read as text is no document.
-/

namespace Phrasebook

structure Directory where
  root : Path
deriving DecidableEq, Repr

namespace Directory

/-- The path of a name; empty segments do not count. -/
def pathOf (d : Directory) (name : Text) : Path :=
  (((Resource.normalize name).splitOn '/').filter (!·.isEmpty)).foldl
    (fun p segment => Path.join p (Path.ofText segment)) d.root

def read (d : Directory) (files : FileSystem) (name : Text) : Option Text :=
  (files.readText (d.pathOf name)).toOption

def names (d : Directory) (files : FileSystem) : List Text :=
  let found := (files.walkFrom d.root).filter (·.node.isFile)
  let listed := found.filterMap fun f =>
    (Path.relativeTo d.root f.path).bind fun relative =>
      (Utf8.decode? relative).map Resource.normalize
  Text.sorted listed

end Directory

end Phrasebook
