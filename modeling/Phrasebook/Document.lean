import Phrasebook.Toml.Document
import Phrasebook.KeyTree

/-!
A translation document is a table of strings. Its leaves are the strings below the top-level
sections, each with its dotted path; the configuration section holds none. The flat view maps paths
to texts and the tree view groups the paths. Both are refused where two leaves overlap.
-/

namespace Phrasebook

/-- Names the generated scope, and never holds translations. -/
def configSection : Text := "echoes_config".toList

def classNameKey : Text := "generated_class_name".toList

def namespaceKey : Text := "generated_namespace".toList

/-- Members of this section have no section name in their paths. -/
def translationsSection : Text := "translations".toList

structure Leaf where
  path : Text
  text : Text
deriving DecidableEq, Repr

structure ScopeNames where
  className : Text
  enclosing : Text
deriving DecidableEq, Repr

structure Document where
  table : Toml.Table

abbrev FlatMap := Dictionary Text

namespace Document

inductive Error where
  | notToml
  | conflict (conflict : PathConflict)
deriving DecidableEq, Repr

def Error.message : Error → Text
  | notToml => "Failed to parse translation document: ".toList
  | conflict c => c.message

def read (text : Text) : Except Error Document :=
  match Toml.read text with
  | some table => .ok ⟨table⟩
  | none => .error .notToml

/-- The scope names, when the configuration section is a table that holds both as strings. -/
def scopeNames (d : Document) : Option ScopeNames :=
  match d.table.find? configSection with
  | some (.table config) =>
    match Dictionary.find? classNameKey config, Dictionary.find? namespaceKey config with
    | some (.string className), some (.string enclosing) => some ⟨className, enclosing⟩
    | _, _ => none
  | _ => none

/-- The path of a member; at the root of the tree it is the key itself. -/
def memberPath (above : Option Text) (key : Text) : Text :=
  match above with
  | none => key
  | some path => path ++ '.' :: key

mutual

def valueLeaves (path : Text) : Toml.Value → List Leaf
  | .string text => [⟨path, text⟩]
  | .table members => memberLeaves (some path) members
  | _ => []

def memberLeaves (above : Option Text) : List (Text × Toml.Value) → List Leaf
  | [] => []
  | (key, v) :: rest => valueLeaves (memberPath above key) v ++ memberLeaves above rest

end

def sectionLeaves (key : Text) (v : Toml.Value) : List Leaf :=
  if key = configSection then []
  else
    match v with
    | .table members => memberLeaves (if key = translationsSection then none else some key) members
    | .string text => [⟨key, text⟩]
    | _ => []

def leaves (d : Document) : List Leaf := d.table.flatMap fun (key, v) => sectionLeaves key v

def tree (d : Document) : Except Error KeyTree :=
  match KeyTree.ofPaths (d.leaves.map (·.path)) with
  | .ok t => .ok t
  | .error c => .error (.conflict c)

def flatten (d : Document) : Except Error FlatMap :=
  match KeyTree.ofPaths (d.leaves.map (·.path)) with
  | .ok _ => .ok (Dictionary.ofList (d.leaves.map fun l => (l.path, l.text)))
  | .error c => .error (.conflict c)

def flatMapOf (text : Text) : Except Error FlatMap := do
  (← read text).flatten

end Document

end Phrasebook
