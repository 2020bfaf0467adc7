import Phrasebook.Accessors.Source
import Phrasebook.Glob.Pattern
import Phrasebook.Path

/-!
Settings of a project: where documents are looked for, where generated files go, and how generated
source refers to the library. Validation names every field at fault, in the order of the fields.
-/

namespace Phrasebook

/-- Documents on disk that take the place of compiled ones. -/
structure OverrideSettings where
  enabled : Bool
  root : Path
deriving DecidableEq, Repr

structure Settings where
  projectDir : Text
  includePatterns : List Text
  excludePatterns : List Text
  outputDir : Text
  resourcesPath : Text
  runtimeCrate : Text
  fileOverrides : OverrideSettings
deriving DecidableEq, Repr

def OverrideSettings.default : OverrideSettings := ⟨false, Path.ofText "translations".toList⟩

/-- What holds where a project says nothing. -/
def Settings.default : Settings where
  projectDir := []
  includePatterns := ["**/*.toml".toList]
  excludePatterns := ["target/**".toList]
  outputDir := "src/generated".toList
  resourcesPath := Accessors.Options.default.resourcesPath
  runtimeCrate := Accessors.Options.default.runtimeCrate
  fileOverrides := OverrideSettings.default

namespace Settings

def options (s : Settings) : Accessors.Options := ⟨s.runtimeCrate, s.resourcesPath⟩

inductive Problem where
  | noPattern
  | badPattern (pattern : Text) (fault : Glob.Fault)
  | noOutputDir
  | noItemPath (path : Text) (exemplar : Text)
  | noOverrideRoot
deriving DecidableEq, Repr

def Problem.message : Problem → Text
  | noPattern => "At least one pattern is required. Example: [\"**/*.toml\"]".toList
  | badPattern pattern fault =>
    "Invalid glob pattern '".toList ++ pattern ++ "': ".toList ++ fault.describe pattern
  | noOutputDir => "The directory cannot be empty. Example: \"src/generated\"".toList
  | noItemPath path exemplar =>
    "'".toList ++ path ++ "' is not a Rust path. Example: \"".toList ++ exemplar ++ "\"".toList
  | noOverrideRoot => "The directory cannot be empty when overrides are enabled".toList

/-- A field, named as in the settings file, and its problem. -/
structure FieldError where
  field : Text
  problem : Problem
deriving DecidableEq, Repr

def FieldError.message (e : FieldError) : Text :=
  "Configuration error in '".toList ++ e.field ++ "': ".toList ++ e.problem.message

/-- The list of field errors as it is shown, numbered from one. -/
def report (errors : List FieldError) : Text :=
  "Configuration validation failed:\n".toList ++
    Text.joinWith '\n' (errors.mapIdx fun i e =>
      "  ".toList ++ Text.ofNat (i + 1) ++ ". ".toList ++ e.field ++ " - ".toList ++
        e.problem.message)

def includeField : Text := "includePatterns".toList

def excludeField : Text := "excludePatterns".toList

def patternErrors (field : Text) (patterns : List Text) : List FieldError :=
  (patterns.mapIdx fun i pattern =>
    match Glob.parse false pattern with
    | .ok _ => []
    | .error f => [⟨field ++ '[' :: Text.ofNat i ++ [']'], .badPattern pattern f⟩]).flatten

def itemSegments (path : Text) : List Text := Accessors.namespaceSegments.splitColons path

def isItemSegment (segment : Text) : Bool :=
  match segment with
  | [] => false
  | c :: rest =>
    (c == '_' || c.isAlpha) && rest.all Accessors.isIdentifierChar && segment != ['_']

/-- Identifiers with double colons between them, and perhaps before them. -/
def isItemPath (path : Text) : Bool :=
  (itemSegments ((Cut.lead "::".toList path).getD path)).all isItemSegment

def errors (s : Settings) : List FieldError :=
  (if s.includePatterns.isEmpty then [⟨includeField, .noPattern⟩] else []) ++
    patternErrors includeField s.includePatterns ++
    patternErrors excludeField s.excludePatterns ++
    (if s.outputDir.isEmpty then [⟨"outputDir".toList, .noOutputDir⟩] else []) ++
    (if isItemPath s.resourcesPath then []
      else [⟨"resourcesPath".toList, .noItemPath s.resourcesPath "crate::TRANSLATIONS".toList⟩]) ++
    (if isItemPath s.runtimeCrate then []
      else [⟨"runtimeCrate".toList, .noItemPath s.runtimeCrate "echoes".toList⟩]) ++
    (if s.fileOverrides.enabled && s.fileOverrides.root.isEmpty then
      [⟨"fileOverrides.root".toList, .noOverrideRoot⟩] else [])

def isValid (s : Settings) : Bool := s.errors.isEmpty

end Settings

end Phrasebook
