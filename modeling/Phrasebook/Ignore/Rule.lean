import Phrasebook.Glob.Match
import Phrasebook.Text.Blank

/-!
Rules of ignore files. A line holds a pattern; an exclamation mark in front takes paths back in, a
slash in front or inside ties the pattern to the directory of the file, and a slash at the end
restricts it to directories. The last rule that matches a path decides about it.
-/

namespace Phrasebook.Ignore

structure Rule where
  pattern : Glob.Pattern
  takesBack : Bool
  directoriesOnly : Bool

inductive Verdict where
  | ignored
  | takenBack
deriving DecidableEq, Repr

/-- Stars and question marks do not cross slashes. -/
def options : Glob.Options := ⟨true, false⟩

/-- Removes white space from the end, unless a space there is escaped. -/
def trimEnd (line : Text) : Text :=
  if "\\ ".toList.isSuffixOf line then line else (line.reverse.dropWhile Text.isBlank).reverse

/-- A pattern without slashes matches in every directory below, and one for all that is in a
directory does not match the directory. -/
def complete (anchored : Bool) (pattern : Text) : Text :=
  let pattern :=
    if anchored || pattern.any (· == '/') || pattern = "**".toList then pattern
    else "**/".toList ++ pattern
  if "/**".toList.isSuffixOf pattern then pattern ++ "/*".toList else pattern

/-- Removes a slash from the end, and a backslash that escapes it. -/
def directoryPattern? (pattern : Text) : Option Text :=
  if pattern.getLast? = some '/' then
    let pattern := pattern.dropLast
    some (if pattern.getLast? = some '\\' then pattern.dropLast else pattern)
  else none

/-- The rule on a line. Comments, empty lines and lines without a readable pattern have none. -/
def rule? (line : Text) : Option Rule :=
  if line.head? = some '#' then none
  else
    match trimEnd line with
    | [] => none
    | c :: rest =>
      let (takesBack, anchored, pattern) :=
        match c, rest with
        | '\\', '!' :: _ | '\\', '#' :: _ => (false, false, rest)
        | '!', '/' :: pattern => (true, true, pattern)
        | '!', _ => (true, false, rest)
        | '/', _ => (false, true, rest)
        | _, _ => (false, false, c :: rest)
      let directory := directoryPattern? pattern
      match Glob.parse true (complete anchored (directory.getD pattern)) with
      | .ok p => some ⟨p, takesBack, directory.isSome⟩
      | .error _ => none

def linesOf (content : Bytes) : List Bytes :=
  let lines := content.splitOn 10
  let closed := lines.dropLast.map fun line =>
    if line.getLast? = some 13 then line.dropLast else line
  closed ++ (lines.getLast?.toList.filter fun line => !line.isEmpty)

def textLines : List Bytes → List Text
  | [] => []
  | line :: rest =>
    match Utf8.decode? line with
    | some text => text :: textLines rest
    | none => []

/-- The rules of a file; byte order marks in front do not count. -/
def rules (content : Bytes) : List Rule :=
  let lines := match textLines (linesOf content) with
    | first :: rest => first.dropWhile (· == '\uFEFF') :: rest
    | [] => []
  lines.filterMap rule?

def verdict? (rules : List Rule) (path : Bytes) (isDirectory : Bool) : Option Verdict :=
  let applies := fun (r : Rule) =>
    (!r.directoriesOnly || isDirectory) && Glob.isMatchInSet options r.pattern path
  (rules.reverse.find? applies).map fun r => if r.takesBack then .takenBack else .ignored

end Phrasebook.Ignore
