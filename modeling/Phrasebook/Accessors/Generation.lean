import Phrasebook.Accessors.Source
import Phrasebook.FileTree.Change

/-!
From documents to generated files. A text that never mentions the configuration section is passed
over without being read, and so is a document without a complete section. Documents of a batch do
not depend on each other.
-/

namespace Phrasebook.Accessors

inductive Error where
  | document (error : Document.Error)
  | collision (collision : Collision)
  | io (path : Path)
deriving DecidableEq, Repr

def Error.message : Error → Text
  | document e => e.message
  | collision c => c.message
  | io path => "I/O error for ".toList ++ Path.quoted path ++ ": ".toList

structure GeneratedFile where
  fileName : Text
  relativePath : Text
  source : Text
deriving DecidableEq, Repr

/-- The path of a document below the project directory, as text with slashes. An empty directory
and one that does not hold the document leave the path as it is. -/
def relativePath (path projectDir : Path) : Text :=
  let relative := if projectDir.isEmpty then path else (Path.relativeTo projectDir path).getD path
  Resource.normalize relative.toText

/-- Reads what a source is made from; a document without scope names has none of its own. -/
def extract (text : Text) (path projectDir : Path) : Except Document.Error (Option Descriptor) := do
  let document ← Document.read text
  match document.scopeNames with
  | none => .ok none
  | some names =>
    let tree ← document.tree
    .ok (some ⟨relativePath path projectDir, names, tree⟩)

def generate (text : Text) (path projectDir : Path) (o : Options) :
    Except Error (Option GeneratedFile) :=
  if !Text.contains configSection text then .ok none
  else
    match extract text path projectDir with
    | .error e => .error (.document e)
    | .ok none => .ok none
    | .ok (some d) =>
      match emit o d with
      | .error c => .error (.collision c)
      | .ok source => .ok (some ⟨d.stem ++ ".rs".toList, d.relativePath, source⟩)

inductive Outcome where
  | generated (file : GeneratedFile)
  | skipped
  | failed (error : Error)

structure DocumentResult where
  path : Path
  outcome : Outcome

def outcomeAt (files : FileSystem) (projectDir : Path) (o : Options) (path : Path) : Outcome :=
  match files.readText path with
  | .error _ => .failed (.io path)
  | .ok text =>
    match generate text path projectDir o with
    | .error e => .failed e
    | .ok none => .skipped
    | .ok (some file) => .generated file

def generateBatch (files : FileSystem) (projectDir : Path) (o : Options) (paths : List Path) :
    List DocumentResult :=
  paths.map fun path => ⟨path, outcomeAt files projectDir o path⟩

/-- Writes a generated file into a directory, which is made if it does not exist. -/
def write (files : FileSystem) (file : GeneratedFile) (outDir : Path) :
    FileSystem × Except Error Path :=
  match files.makeDirectories outDir with
  | (files, .error _) => (files, .error (.io outDir))
  | (files, .ok ()) =>
    let path := Path.join outDir (Path.ofText file.fileName)
    match files.writeFile path (Utf8.encode file.source) with
    | .ok files => (files, .ok path)
    | .error _ => (files, .error (.io path))

end Phrasebook.Accessors
