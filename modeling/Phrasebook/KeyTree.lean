import Phrasebook.Text.Dictionary

/-!
The key tree of a document. Inner nodes are groups, leaves are entries, and the dotted path of a
key names its place. Children are kept in key order, so the tree of a set of paths does not depend
on the order of insertion. A path that is already a group, an entry, or lies below an entry is refused, and the
tree stays as it was.
-/

namespace Phrasebook

structure Entry where
  localName : Text
  fullPath : Text
deriving DecidableEq, Repr

inductive KeyTree where
  | group (name : Text) (entries : List (Text × Entry)) (groups : List (Text × KeyTree))
deriving Repr

/-- The dotted path at which two declarations meet. -/
structure PathConflict where
  path : Text
deriving DecidableEq, Repr

def PathConflict.message (c : PathConflict) : Text :=
  "conflicting declarations for translation path '".toList ++ c.path ++ "'".toList

namespace KeyTree

def name : KeyTree → Text
  | group n _ _ => n

def entries : KeyTree → Dictionary Entry
  | group _ es _ => es

def groups : KeyTree → Dictionary KeyTree
  | group _ _ gs => gs

def empty (name : Text) : KeyTree := group name [] []

/-- The tree without keys; the outermost group has no name. -/
def root : KeyTree := empty []

def splitPath (path : Text) : List Text × Text :=
  let segments := Text.segments '.' path
  (segments.dropLast, segments.getLastD [])

/-- Extends a walked path by one segment. Nothing is put before a segment while the walked path
is empty. -/
def extend (walked segment : Text) : Text :=
  if walked.isEmpty then segment else walked ++ '.' :: segment

def insertBelow (entry : Entry) : (walked : Text) → (segments : List Text) → KeyTree →
    KeyTree × Except PathConflict Unit
  | _, [], group n es gs =>
    if Dictionary.contains entry.localName es || Dictionary.contains entry.localName gs then
      (group n es gs, .error ⟨entry.fullPath⟩)
    else (group n (Dictionary.insert entry.localName entry es) gs, .ok ())
  | walked, segment :: rest, group n es gs =>
    let walked := extend walked segment
    if Dictionary.contains segment es then (group n es gs, .error ⟨walked⟩)
    else
      let (below, outcome) := insertBelow entry walked rest
        ((Dictionary.find? segment gs).getD (empty segment))
      (group n es (Dictionary.insert segment below gs), outcome)

def insert (tree : KeyTree) (path : Text) : KeyTree × Except PathConflict Unit :=
  let (groups, last) := splitPath path
  insertBelow ⟨last, path⟩ [] groups tree

def insertAll (tree : KeyTree) : List Text → Except PathConflict KeyTree
  | [] => .ok tree
  | path :: rest =>
    match tree.insert path with
    | (next, .ok ()) => insertAll next rest
    | (_, .error conflict) => .error conflict

def ofPaths (paths : List Text) : Except PathConflict KeyTree := root.insertAll paths

def descend : List Text → KeyTree → Option KeyTree
  | [], t => some t
  | segment :: rest, t => (t.groups.find? segment).bind (descend rest)

def find? (tree : KeyTree) (path : Text) : Option Entry :=
  let (groups, last) := splitPath path
  (descend groups tree).bind (·.entries.find? last)

mutual

/-- All entries at and below a group: its own first, then those of its groups, in key order. -/
def allEntries : KeyTree → List Entry
  | group _ es gs => es.map (·.2) ++ allEntriesOf gs

def allEntriesOf : List (Text × KeyTree) → List Entry
  | [] => []
  | (_, t) :: rest => allEntries t ++ allEntriesOf rest

end

def paths (tree : KeyTree) : List Text := tree.allEntries.map (·.fullPath)

def isEmpty (tree : KeyTree) : Bool := tree.entries.isEmpty && tree.groups.isEmpty

mutual

/-- Structural equality, names and order of children included. -/
def same : KeyTree → KeyTree → Bool
  | group n es gs, group n' es' gs' => n = n' && es = es' && sameAll gs gs'

def sameAll : List (Text × KeyTree) → List (Text × KeyTree) → Bool
  | [], [] => true
  | (k, t) :: rest, (k', t') :: rest' => k = k' && same t t' && sameAll rest rest'
  | _, _ => false

end

/-- A group as it is met on a walk: how deep it lies, the key it is kept under, and itself. -/
structure Visit where
  depth : Nat
  key : Text
  group : KeyTree

mutual

def visits (depth : Nat) (key : Text) : KeyTree → List Visit
  | group n es gs => ⟨depth, key, group n es gs⟩ :: visitsOf (depth + 1) gs

def visitsOf (depth : Nat) : List (Text × KeyTree) → List Visit
  | [] => []
  | (k, t) :: rest => visits depth k t ++ visitsOf depth rest

end

end KeyTree

end Phrasebook
