import Phrasebook.Ignore.Rule
import Phrasebook.FileTree.Walk

/-!
Walks that pass over ignored entries. Every directory from the top of the tree down to an entry may
have rules for it: general ones, and those of the version control system, which count inside a
repository only and not beyond its top. General rules come first, and nearer directories before
those above.
-/

namespace Phrasebook.Ignore

/-- The rules that lie in one directory. They speak of paths below it, which they know by the places
or, where the walk itself came through the directory, by the spelling of its path. -/
structure Level where
  place : FileTree.Place
  spelling : Option Path
  general : List Rule
  versioned : List Rule
  excluded : List Rule
  isRepository : Bool

def generalFile : Bytes := Utf8.encode ".ignore".toList

def versionedFile : Bytes := Utf8.encode ".gitignore".toList

def repositoryEntry : Bytes := Utf8.encode ".git".toList

def otherRepositoryEntry : Bytes := Utf8.encode ".jj".toList

def rulesAt (files : FileSystem) (path : Path) : List Rule :=
  match files.readBytes path with
  | .ok content => rules content
  | .error _ => []

def firstLine? (files : FileSystem) (path : Path) : Option Text :=
  match files.readBytes path with
  | .ok content => (textLines (linesOf content)).head?
  | .error _ => none

/-- The directory that holds the data of a repository. An entry that is a file leads to it. -/
def repositoryData? (files : FileSystem) (entry : Path) : Option Path :=
  match files.get entry with
  | .ok (.file _) => do
    let line ← firstLine? files entry
    let data := Path.ofText (← Cut.lead "gitdir: ".toList line)
    let shared ← firstLine? files (Path.join data (Path.ofText "commondir".toList))
    some (if shared.head? = some '.' then Path.join data (Path.ofText shared)
      else Path.ofText shared)
  | _ => some entry

def excludeFile : Path := Path.ofText "info/exclude".toList

def pathAt (place : FileTree.Place) : Path := [Path.slash].intercalate place

def levelAt (files : FileSystem) (place : FileTree.Place) (spelling : Option Path) : Level :=
  let pathOf := fun (name : Bytes) =>
    Path.join (spelling.getD (Path.slash :: pathAt place)) name
  let isThere := fun (name : Bytes) => (files.get (pathOf name)).toOption.isSome
  { place
    spelling
    general := rulesAt files (pathOf generalFile)
    versioned := rulesAt files (pathOf versionedFile)
    excluded := match repositoryData? files (pathOf repositoryEntry) with
      | some data => rulesAt files (Path.join data excludeFile)
      | none => []
    isRepository := isThere repositoryEntry || isThere otherRepositoryEntry }

structure Arrival where
  place : FileTree.Place
  path : Path
  isDirectory : Bool

def dropDot (p : Path) : Path := (Cut.lead [Path.dot, Path.slash] p).getD p

/-- A path as the rules of a directory on its way see it. Both are taken as they are spelled; of the
directory one `./` at the front does not count, of the path two. What is not spelled as lying in
the directory keeps its whole path. -/
def seenFrom (directory path : Path) : Path :=
  let above := dropDot directory
  let path := dropDot (dropDot path)
  if above.components = [.current] ∨ !path.contains Path.slash then path
  else
    match Cut.lead above path with
    | some below => (Cut.lead [Path.slash] below).getD below
    | none => path

def Level.relative (l : Level) (e : Arrival) : Path :=
  match l.spelling with
  | some directory => seenFrom directory e.path
  | none => pathAt (e.place.drop l.place.length)

/-- The levels up to the top of the repository, nearest first; none outside a repository. -/
def repositoryLevels (levels : List Level) : List Level :=
  if levels.any (·.isRepository) then
    levels.takeWhile (!·.isRepository) ++ (levels.find? (·.isRepository)).toList
  else []

def firstVerdict? (pick : Level → List Rule) (levels : List Level) (e : Arrival) :
    Option Verdict :=
  levels.findSome? fun l =>
    match pick l with
    | [] => none
    | rules => verdict? rules (l.relative e) e.isDirectory

def isIgnored (levels : List Level) (e : Arrival) : Bool :=
  let inRepository := repositoryLevels levels
  let verdict := (firstVerdict? (·.general) levels e).or
    ((firstVerdict? (·.versioned) inRepository e).or (firstVerdict? (·.excluded) inRepository e))
  verdict = some .ignored

mutual

/-- What is not passed over below the node at a place, which the walk reached under a path. -/
def keptIn (files : FileSystem) (levels : List Level) (place : FileTree.Place) (path : Path) :
    FileTree → List FileTree.Found
  | .directory es =>
    if FileTree.pathLimit < path.length then []
    else keptAmong files (levelAt files place (some path) :: levels) place path es
  | _ => []

def keptAmong (files : FileSystem) (levels : List Level) (place : FileTree.Place) (path : Path) :
    List (Bytes × FileTree) → List FileTree.Found
  | [] => []
  | (name, t) :: rest =>
    let e : Arrival := ⟨place ++ [name], Path.join path name, t.isDirectory⟩
    (if isIgnored levels e then [] else ⟨e.path, t⟩ :: keptIn files levels e.place e.path t) ++
      keptAmong files levels place path rest

end

def levelsAbove (files : FileSystem) (place : FileTree.Place) : List Level :=
  ((List.range place.length).map fun n => levelAt files (place.take n) none).reverse

def walk (files : FileSystem) (root : Path) : List FileTree.Found :=
  if FileTree.isStandardInput root then []
  else
    match files.locate true root with
    | .error _ => []
    | .ok trail =>
      keptIn files (levelsAbove files trail.place) trail.place root (trail.node files.top)

end Phrasebook.Ignore
