import Phrasebook.Locale.Identifier
import Phrasebook.Glob.Match
import Phrasebook.Resources.Directory
import Phrasebook.Resources.Embedded

/-!
The locale variants of a document: names that are its stem, an underscore and more, among the
embedded documents and in a directory on disk. What follows the underscore, up to the last dot, is
read as a locale.
-/

namespace Phrasebook.Variants

structure Error where
  pattern : Text
  fault : Glob.Fault
deriving DecidableEq, Repr

def Error.message (e : Error) : Text :=
  "Invalid variant pattern '".toList ++ e.pattern ++ "': ".toList ++ e.fault.describe e.pattern

def fileName (name : Text) : Text := Cut.afterLast '/' (Resource.normalize name)

def patternText (base : Text) : Text := Glob.escape base ++ "_*".toList

def pattern (base : Text) : Except Error Glob.Pattern :=
  match Glob.parse false (patternText base) with
  | .ok p => .ok p
  | .error fault => .error ⟨patternText base, fault⟩

/-- Variants match in both cases. -/
def options : Glob.Options := ⟨true, true⟩

def onDisk (files : FileSystem) (dir : Path) (p : Glob.Pattern) : List Text :=
  let candidates : List (Path × Bytes) :=
    match files.get dir with
    | .ok (.directory es) =>
      (es.filter fun (_, node) => node.isFile).map fun (name, _) => (Path.join dir name, name)
    | .ok (.file _) => [(dir, (Path.fileName? dir).getD dir)]
    | _ => []
  let matching := candidates.filter fun (_, name) =>
    (Utf8.decode? name).isSome && Glob.isMatch options p name
  if FileTree.isStandardInput dir then [] else matching.map fun (path, _) => Path.toText path

/-- All variants of a base name: embedded names in order, then files on disk in order. -/
def list (e : Embedded) (files : FileSystem) (dir : Option Path) (base : Text) :
    Except Error (List Text) := do
  let p ← pattern base
  let embedded := e.names.filter fun name => Glob.isMatch options p (Utf8.encode (fileName name))
  let disk := (dir.map fun d => onDisk files d p).getD []
  .ok (Text.sorted embedded ++ Text.sorted disk)

def locale? (base name : Text) : Option Locale :=
  let file := fileName name
  let stem := ((Cut.last '.' file).map (·.1)).getD file
  (Cut.lead (Text.toLower base ++ ['_']) (Text.toLower stem)).bind fun suffix =>
    (Locale.parse suffix).toOption

/-- The locales of names, in their order; names without one do not count. -/
def locales (names : List Text) (base : Text) : List Locale := names.filterMap (locale? base)

end Phrasebook.Variants
