import Phrasebook.Settings.Basic
import Phrasebook.Glob.Match

/-!
Which files of a project are documents: those whose path below the root matches a pattern that
includes and none that excludes. Where overrides are enabled, everything below their directory is
excluded as well, since such files replace documents and are none themselves.
-/

namespace Phrasebook

structure DocumentFilter where
  root : Path
  included : List Glob.Pattern
  excluded : List Glob.Pattern

namespace DocumentFilter

structure Error where
  setting : Text
  pattern : Text
  fault : Glob.Fault
deriving DecidableEq, Repr

def Error.message (e : Error) : Text :=
  "Invalid glob '".toList ++ e.pattern ++ "' in ".toList ++ e.setting ++ ": ".toList ++
    e.fault.describe e.pattern

def readPatterns (setting : Text) : List Text → Except Error (List Glob.Pattern)
  | [] => .ok []
  | pattern :: rest =>
    match Glob.parse false pattern with
    | .error fault => .error ⟨setting, pattern, fault⟩
    | .ok p => (readPatterns setting rest).map (p :: ·)

/-- The override directory below the root, as text with slashes; a directory outside the project
and the root itself do not count. -/
def overrideDir? (root : Path) (s : OverrideSettings) : Option Text :=
  let relative := if Path.isAbsolute s.root then Path.relativeTo root s.root else some s.root
  let written := relative.map fun p =>
    Cut.trim (· == '/') (Resource.dropDotSlashes (Resource.normalize p.toText))
  written.filter fun t => !t.isEmpty && t != ['.']

def overridePattern? (root : Path) (s : OverrideSettings) : Option Text :=
  if s.enabled then (overrideDir? root s).map fun dir => Glob.escape dir ++ "/**".toList else none

def ofSettings (root : Path) (s : Settings) : Except Error DocumentFilter := do
  let included ← readPatterns Settings.includeField s.includePatterns
  let excluded ← readPatterns Settings.excludeField
    (s.excludePatterns ++ (overridePattern? root s.fileOverrides).toList)
  .ok ⟨root, included, excluded⟩

/-- Stars cross slashes, and case counts. -/
def options : Glob.Options := ⟨false, false⟩

def matchesAny (patterns : List Glob.Pattern) (path : Path) : Bool :=
  patterns.any fun p => Glob.isMatchInSet options p path

/-- Whether the file at a path is a document; a path outside the root is none. -/
def isDocument (f : DocumentFilter) (path : Path) : Bool :=
  match Path.relativeTo f.root path with
  | some relative => matchesAny f.included relative && !matchesAny f.excluded relative
  | none => false

end DocumentFilter

end Phrasebook
