import Phrasebook.Settings.Reading
import Phrasebook.FileTree.Basic

/-!
A project is a root directory with valid settings. They come from the settings file in the root, or
are the defaults when there is none. The output directory may be replaced later, but only by one
with which the settings are still valid.
-/

namespace Phrasebook

structure Project where
  root : Path
  settings : Settings
deriving Repr

namespace Project

inductive Error where
  | invalid (errors : List Settings.FieldError)
  | unreadable (path : Path)
  | notSettings (path : Path)
deriving Repr

def Error.message : Error → Text
  | invalid errors => Settings.report errors
  | unreadable path =>
    "Failed to read configuration file ".toList ++ Path.quoted path ++ ": ".toList
  | notSettings path =>
    "Failed to parse configuration file ".toList ++ Path.quoted path ++ ": ".toList

def settingsFileName : Text := ".echoes.json".toList

def ofSettings (root : Path) (s : Settings) : Except Error Project :=
  if s.isValid then .ok ⟨root, s⟩ else .error (.invalid s.errors)

def load (files : FileSystem) (root : Path) : Except Error Project :=
  let path := Path.join root (Path.ofText settingsFileName)
  match files.readText path with
  | .error .notFound => ofSettings root Settings.default
  | .error _ => .error (.unreadable path)
  | .ok text =>
    match Settings.read text with
    | none => .error (.notSettings path)
    | some s => ofSettings root s

def withOutputDir (p : Project) (dir : Path) : Except Error Project :=
  ofSettings p.root { p.settings with outputDir := dir.toText }

/-- The directory whose path is left out of the paths of documents. -/
def documentBase (p : Project) : Path := Path.join p.root (Path.ofText p.settings.projectDir)

def outputDir (p : Project) : Path := Path.join p.root (Path.ofText p.settings.outputDir)

end Project

end Phrasebook
