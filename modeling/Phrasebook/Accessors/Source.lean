import Phrasebook.Accessors.Identifier
import Phrasebook.Accessors.Block
import Phrasebook.Text.Quoted
import Phrasebook.Text.Sorting
import Phrasebook.Resources.Name
import Phrasebook.Document

/-!
The accessor source of a document. Groups become modules and entries become functions, each of
which makes a unit for the full path of its entry. Two names of one scope must not share an
identifier, and root entries must not take the names of the items that every class has.
-/

namespace Phrasebook.Accessors

/-- How the generated source reaches the library at run time and the resources. -/
structure Options where
  runtimeCrate : Text
  resourcesPath : Text
deriving DecidableEq, Repr

def Options.default : Options := ⟨"echoes".toList, "crate::TRANSLATIONS".toList⟩

/-- The runtime crate as a path; a bare crate name is made absolute. -/
def Options.runtimePath (o : Options) : Text :=
  if Text.contains "::".toList o.runtimeCrate then o.runtimeCrate
  else "::".toList ++ o.runtimeCrate

structure Descriptor where
  relativePath : Text
  names : ScopeNames
  tree : KeyTree

def Descriptor.stem (d : Descriptor) : Text :=
  Resource.stem (Cut.afterLast '/' d.relativePath)

structure Collision where
  scope : Text
  identifier : Text
  first : Text
  second : Text
deriving DecidableEq, Repr

def Collision.message (c : Collision) : Text :=
  "Names '".toList ++ c.first ++ "' and '".toList ++ c.second ++ "' in scope '".toList ++
    c.scope ++ "' both map to the identifier '".toList ++ c.identifier ++ "'".toList

def reservedItems : List Text :=
  ["FILE".toList, "SOURCE".toList, "KEYS".toList, "lookup".toList]

/-- Checks names against those already taken, given as pairs of identifier and name. -/
def checkNames (scope : Text) (reserved : List Text) (taken : List (Text × Text)) :
    List Text → Except Collision (List (Text × Text))
  | [] => .ok taken
  | name :: rest =>
    let ident := identifier name
    if ident ∈ reserved then .error ⟨scope, ident, ident, name⟩
    else
      match Dictionary.find? ident taken with
      | some first => .error ⟨scope, ident, first, name⟩
      | none => checkNames scope reserved ((ident, name) :: taken) rest

def checkGroup (scope : Text) (isRoot : Bool) (t : KeyTree) : Except Collision Unit := do
  let taken ← checkNames scope (if isRoot then reservedItems else []) [] t.entries.keys
  let _ ← checkNames scope [] taken t.groups.keys
  .ok ()

/-- The name of a scope below another; directly below the class it is the group's own. -/
def subScope (scope : Text) (isRoot : Bool) (name : Text) : Text :=
  if isRoot then name else scope ++ '.' :: name

mutual

def checkTree (scope : Text) (isRoot : Bool) : KeyTree → Except Collision Unit
  | .group n es gs => do
    checkGroup scope isRoot (.group n es gs)
    checkGroups scope isRoot gs

def checkGroups (scope : Text) (isRoot : Bool) : List (Text × KeyTree) → Except Collision Unit
  | [] => .ok ()
  | (name, t) :: rest => do
    checkTree (subScope scope isRoot name) false t
    checkGroups scope isRoot rest

end

def entryBlock (runtime : Text) (depth : Nat) (name fullPath : Text) : Block :=
  .function []
    ("pub fn ".toList ++ identifier name ++ "() -> ".toList ++ runtime ++
      "::TranslationUnit".toList)
    (runtime ++ "::TranslationUnit::new(&".toList ++
      (List.replicate depth "super::".toList).flatten ++ "SOURCE, ".toList ++
      Text.quoted fullPath ++ ")".toList)

def entryBlocks (runtime : Text) (depth : Nat) (entries : List (Text × Entry)) : List Block :=
  entries.map fun (name, e) => entryBlock runtime depth name e.fullPath

def moduleHeader (name : Text) : Text := "pub mod ".toList ++ identifier name

mutual

/-- The items of a group: functions for its entries, then modules for its groups. -/
def treeBlocks (runtime : Text) (depth : Nat) : KeyTree → List Block
  | .group _ es gs => entryBlocks runtime depth es ++ groupBlocks runtime depth gs

def groupBlocks (runtime : Text) (depth : Nat) : List (Text × KeyTree) → List Block
  | [] => []
  | (name, t) :: rest =>
    .scope [] (moduleHeader name) (treeBlocks runtime (depth + 1) t) ::
      groupBlocks runtime depth rest

end

def sortedKeys (t : KeyTree) : List Text := Text.sorted t.paths

def keysLines (keys : List Text) : List Text :=
  if keys.isEmpty then ["pub const KEYS: &[&str] = &[];".toList]
  else
    ["pub const KEYS: &[&str] = &[".toList] ++
      keys.map (fun key => Block.indentStep ++ Text.quoted key ++ ",".toList) ++ ["];".toList]

def headerBlocks (o : Options) (d : Descriptor) : List Block :=
  let runtime := o.runtimePath
  [.lines ["pub const FILE: &str = ".toList ++ Text.quoted d.relativePath ++ ";".toList],
    .lines ["pub static SOURCE: ".toList ++ runtime ++ "::TranslationSource =".toList,
      Block.indentStep ++ runtime ++ "::TranslationSource::new(&".toList ++ o.resourcesPath ++
        ", FILE);".toList],
    .lines (keysLines (sortedKeys d.tree)),
    .function
      ["/// Unit for a full dotted key, or \x60None\x60 when the document has no such key.".toList]
      ("pub fn lookup(key: &str) -> ::core::option::Option<".toList ++ runtime ++
        "::TranslationUnit>".toList)
      ("KEYS.iter().copied().find(|k| *k == key).map(|k| ".toList ++ runtime ++
        "::TranslationUnit::new(&SOURCE, k))".toList)]

/-- The segments of a namespace, between double colons and between dots; empty ones do not
count. -/
def namespaceSegments (s : Text) : List Text :=
  ((splitColons s).flatMap (Text.segments '.')).filter (!·.isEmpty)
where
  splitColons : Text → List Text
    | ':' :: ':' :: rest => [] :: splitColons rest
    | c :: rest =>
      match splitColons rest with
      | part :: parts => (c :: part) :: parts
      | [] => [[c]]
    | [] => [[]]

def classBlock (o : Options) (d : Descriptor) : Block :=
  let headers := (namespaceSegments d.names.enclosing ++ [d.names.className]).map moduleHeader
  Block.nest ["#[allow(non_snake_case, dead_code)]".toList] (headers.headD []) headers.tail
    (headerBlocks o d ++ treeBlocks o.runtimePath 0 d.tree)

/-- The whole source text: a line that tells its document, a blank line and the class. -/
def sourceText (o : Options) (d : Descriptor) : Text :=
  Block.line 0 ("// @generated by echoes-gen from ".toList ++ d.relativePath ++
      ". Do not edit.".toList) ++
    '\n' :: (classBlock o d).render 0

def emit (o : Options) (d : Descriptor) : Except Collision Text := do
  checkTree d.names.className true d.tree
  .ok (sourceText o d)

end Phrasebook.Accessors
