import Phrasebook.FileTree.Basic

/-!
Changes to a file system: writing a file, making directories, and removing what a path names. A
change either happens or all stays as it is, but directories made on the way to a fault stay.
-/

namespace Phrasebook

namespace FileTree

def lastName (names : List Bytes) : Bytes := names.getLast?.getD []

/-- The way by which names come to the directory that has the last one as an entry. -/
def trailAbove (t : FileTree) (base : Trail) (names : List Bytes) : Except Fault Trail :=
  -- the blank name goes nowhere, but has to stand in a directory
  walkLinks t true (linkLimit + 1) base (names.dropLast ++ [[]])

/-- The place and name under which a new file is made for the names of a path. A link as the last
name leads to its target, whether or not that exists. -/
def target (t : FileTree) : (links : Nat) → (base : Trail) → (names : List Bytes) →
    Except Fault (Place × Bytes)
  | 0, _, _ => .error .tooManyLinks
  | links + 1, base, names =>
    let name := lastName names
    if name = [] ∨ name = [Path.dot] ∨ name = [Path.dot, Path.dot] then .error .isDirectory
    else if nameLimit < name.length then .error .nameTooLong
    else do
      let trail ← t.trailAbove base names
      match trail.node t with
      | directory es =>
        match lookup name es with
        | some (link aim) => target t links (trail.start aim) (aim.splitOn Path.slash)
        | some (directory _) => .error .isDirectory
        | _ => .ok (trail.place, name)
      | _ => .error .notDirectory

end FileTree

namespace FileSystem

open FileTree (Fault Entries Place lookup put take lastName)

def modifyEntries (s : FileSystem) (f : Entries → Entries) (place : Place) : FileSystem :=
  { s with top := s.top.modifyEntries f place }

def writeFile (s : FileSystem) (p : Path) (content : Bytes) : Except Fault FileSystem := do
  FileTree.checkPath p
  let (place, name) ← s.top.target (FileTree.linkLimit + 1) [] (s.names p)
  .ok (s.modifyEntries (put name (.file content)) place)

/-- Makes one directory in another, which has to exist. Slashes at the end do not count, and the top
and what ends in dots are always there already. -/
def makeDirectory (s : FileSystem) (p : Path) : Except Fault FileSystem := do
  FileTree.checkPath p
  let names := ((s.names p).reverse.dropWhile (·.isEmpty)).reverse
  let name := lastName names
  let trail ← s.top.trailAbove [] names
  match trail.node s.top with
  | .directory es =>
    if name = [] ∨ name = [Path.dot] ∨ name = [Path.dot, Path.dot] then .error .alreadyThere
    else if FileTree.nameLimit < name.length then .error .nameTooLong
    else if (lookup name es).isSome then .error .alreadyThere
    else .ok (s.modifyEntries (put name .empty) trail.place)
  | _ => .error .notDirectory

def ensureDirectory (s : FileSystem) (p : Path) : FileSystem × Except Fault Unit :=
  match s.makeDirectory p with
  | .ok s => (s, .ok ())
  | .error e => (s, if s.isDirectoryAt p then .ok () else .error e)

/-- Makes a directory; what is not there above it is made first, `fuel` directories at most. -/
def makeDirectoriesWithin (s : FileSystem) : (fuel : Nat) → Path → FileSystem × Except Fault Unit
  | 0, p => s.ensureDirectory p
  | fuel + 1, p =>
    if p.isEmpty then (s, .ok ())
    else
      match s.ensureDirectory p, Path.parent? p with
      | (_, .error .notFound), some above =>
        match s.makeDirectoriesWithin fuel above with
        | (s, .ok ()) => s.ensureDirectory p
        | (s, .error e) => (s, .error e)
      | result, _ => result

def makeDirectories (s : FileSystem) (p : Path) : FileSystem × Except Fault Unit :=
  s.makeDirectoriesWithin (p.components.length + 1) p

/-- Removes what a path names itself, a link and not its target. -/
def remove (s : FileSystem) (p : Path) : FileSystem :=
  match s.locate false p with
  | .ok ((name, _) :: above) => s.modifyEntries (take name) (FileTree.Trail.place above)
  | _ => s

/-- Puts a file, a link or a directory at a path and makes the directories above it. A file is
written through a link that is there; nothing else replaces what is there. -/
def plant (s : FileSystem) (p : Path) (node : FileTree) : FileSystem :=
  let (s, _) := s.makeDirectories ((Path.parent? p).getD [])
  match node with
  | .file content => (s.writeFile p content).toOption.getD s
  | .directory es =>
    let (s, _) := s.makeDirectories p
    match s.locate true p with
    | .ok trail => es.foldl (fun s (name, u) => s.modifyEntries (put name u) trail.place) s
    | .error _ => s
  | .link aim =>
    match s.locate false p, s.top.trailAbove [] (s.names p) with
    | .error .notFound, .ok trail =>
      s.modifyEntries (put (lastName (s.names p)) (.link aim)) trail.place
    | _, _ => s

end FileSystem

end Phrasebook
