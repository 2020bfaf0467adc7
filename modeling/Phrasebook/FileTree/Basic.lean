import Phrasebook.Path

/-!
A file tree is a value: files with their bytes, symbolic links with their targets, and directories
with their entries in byte order of their names. A file system is a tree together with the place in
it from which relative paths go on; absolute paths start at the top. There are no permissions, and
no file lies at two places.
-/

namespace Phrasebook

inductive FileTree where
  | file (content : Bytes)
  | link (target : Path)
  | directory (entries : List (Bytes × FileTree))
deriving Repr

namespace FileTree

abbrev Entries := List (Bytes × FileTree)

/-- Where something lies: the names of the directories on the way to it, and its own. -/
abbrev Place := List Bytes

/-- A way from the top of a tree to a node in it: what was entered, nearest first, by name. -/
abbrev Trail := List (Bytes × FileTree)

/-- Why a path names nothing, or nothing that can be used as asked. -/
inductive Fault where
  | notFound
  | notDirectory
  | isDirectory
  | tooManyLinks
  | nameTooLong
  | zeroByte
  | alreadyThere
  | notText
deriving DecidableEq, Repr

def empty : FileTree := directory []

def isDirectory : FileTree → Bool
  | directory _ => true
  | _ => false

def isFile : FileTree → Bool
  | file _ => true
  | _ => false

def entries : FileTree → Entries
  | directory es => es
  | _ => []

def lookup (name : Bytes) : Entries → Option FileTree
  | [] => none
  | (n, t) :: rest => if n = name then some t else lookup name rest

/-- Puts an entry at its place in the order of names. -/
def put (name : Bytes) (t : FileTree) : Entries → Entries
  | [] => [(name, t)]
  | (n, u) :: rest =>
    if name < n then (name, t) :: (n, u) :: rest
    else if name = n then (name, t) :: rest
    else (n, u) :: put name t rest

def take (name : Bytes) (es : Entries) : Entries := es.filter fun (n, _) => n != name

/-- The node to which a trail has come from the top of a tree. -/
def Trail.node (t : FileTree) : Trail → FileTree
  | [] => t
  | (_, u) :: _ => u

def Trail.place (trail : Trail) : Place := (trail.map (·.1)).reverse

/-- Where a path starts that is met at the end of a trail. -/
def Trail.start (trail : Trail) (p : Path) : Trail := if Path.isAbsolute p then [] else trail

/-- Changes the entries of the directory at a place, if there is one. -/
def modifyEntries (f : Entries → Entries) (t : FileTree) : Place → FileTree
  | [] =>
    match t with
    | directory es => directory (f es)
    | t => t
  | name :: rest =>
    match t with
    | directory es =>
      match lookup name es with
      | some below => directory (put name (below.modifyEntries f rest) es)
      | none => t
    | t => t

def nameLimit : Nat := 255

/-- Paths longer than this are refused as they are written, whatever they name. -/
def pathLimit : Nat := 4095

def linkLimit : Nat := 40

/-- Walks names from where a trail has come to. Empty names and single dots stay, double dots go
up, and stay at the top. A link on the way is handed on together with the names that are left; the
last one only if it is to be followed. -/
def walk (t : FileTree) (followLast : Bool)
    (onLink : Trail → List Bytes → Except Fault Trail) :
    (trail : Trail) → (names : List Bytes) → Except Fault Trail
  | trail, [] => .ok trail
  | trail, name :: rest =>
    match trail.node t with
    | directory es =>
      if name = [] ∨ name = [Path.dot] then walk t followLast onLink trail rest
      else if name = [Path.dot, Path.dot] then walk t followLast onLink trail.tail rest
      else if nameLimit < name.length then .error .nameTooLong
      else
        match lookup name es with
        | none => .error .notFound
        | some (link target) =>
          if rest.isEmpty && !followLast then .ok ((name, link target) :: trail)
          else onLink (trail.start target) (target.splitOn Path.slash ++ rest)
        | some below => walk t followLast onLink ((name, below) :: trail) rest
    | _ => .error .notDirectory

def walkLinks (t : FileTree) (followLast : Bool) : (links : Nat) → Trail → List Bytes →
    Except Fault Trail
  | 0 => fun _ _ => .error .tooManyLinks
  | links + 1 => walk t followLast (walkLinks t followLast links)

def checkPath (p : Path) : Except Fault Unit :=
  if p.contains 0 then .error .zeroByte
  else if pathLimit < p.length then .error .nameTooLong
  else if p.isEmpty then .error .notFound
  else .ok ()

end FileTree

/-- A tree and the place of the directory in it from which relative paths go on. -/
structure FileSystem where
  top : FileTree
  home : FileTree.Place

namespace FileSystem

open FileTree (Fault Trail)

/-- A tree in which relative paths start at the top, as absolute ones do. -/
def ofTree (t : FileTree) : FileSystem := ⟨t, []⟩

def empty : FileSystem := ofTree .empty

/-- The names that a path goes through from the top. -/
def names (s : FileSystem) (p : Path) : List Bytes :=
  (if Path.isAbsolute p then [] else s.home) ++ p.splitOn Path.slash

def locate (s : FileSystem) (followLast : Bool) (p : Path) : Except Fault Trail := do
  FileTree.checkPath p
  s.top.walkLinks followLast (FileTree.linkLimit + 1) [] (s.names p)

def get (s : FileSystem) (p : Path) : Except Fault FileTree :=
  (s.locate true p).map fun trail => trail.node s.top

def isDirectoryAt (s : FileSystem) (p : Path) : Bool :=
  match s.get p with
  | .ok u => u.isDirectory
  | .error _ => false

def readBytes (s : FileSystem) (p : Path) : Except Fault Bytes := do
  match ← s.get p with
  | .file content => .ok content
  | _ => .error .isDirectory

def readText (s : FileSystem) (p : Path) : Except Fault Text := do
  match Utf8.decode? (← s.readBytes p) with
  | some text => .ok text
  | none => .error .notText

end FileSystem

end Phrasebook
