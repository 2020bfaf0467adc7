import Phrasebook.Toml.Section
import Phrasebook.Toml.Moment

/-!
Reads a TOML text. A text is a list of sections, the first of which has no header; each section
holds pairs of a dotted key and a value. Values are scalars, arrays, which may run over lines, and
inline tables, which may not. Reading either gives the whole table or refuses the text.
-/

namespace Phrasebook.Toml

def skipFiller (inComment : Bool) : Text → Option Text
  | [] => some []
  | '\r' :: '\n' :: rest => skipFiller false rest
  | c :: rest =>
    if c = '\n' then skipFiller false rest
    else if inComment then if isControl c then none else skipFiller true rest
    else if isBlank c then skipFiller false rest
    else if c = '#' then skipFiller true rest
    else some (c :: rest)

def arrayItems (item : Reader Value) : (fuel : Nat) → Reader (List Value)
  | 0, _ => none
  | fuel + 1, s => do
    match ← skipFiller false s with
    | ']' :: rest => some ([], rest)
    | s =>
      let (v, rest) ← item s
      match ← skipFiller false rest with
      | ',' :: rest =>
        let (vs, rest) ← arrayItems item fuel rest
        some (v :: vs, rest)
      | ']' :: rest => some ([v], rest)
      | _ => none

def pair (item : Reader Value) : Reader Members.Pair := fun s => do
  match ← key s with
  | (path, '=' :: rest) =>
    let (v, rest) ← item (skipBlanks rest)
    some ((path, v), rest)
  | _ => none

/-- Pairs of an inline table after its first; no comma follows the last. -/
def inlinePairs (item : Reader Value) : (fuel : Nat) → Reader (List Members.Pair)
  | 0, _ => none
  | fuel + 1, s => do
    let (p, rest) ← pair item s
    match skipBlanks rest with
    | ',' :: rest =>
      let (ps, rest) ← inlinePairs item fuel rest
      some (p :: ps, rest)
    | '}' :: rest => some ([p], rest)
    | _ => none

def inlineTable (item : Reader Value) (s : Text) : Option (Value × Text) := do
  let (pairs, rest) ← match skipBlanks s with
    | '}' :: rest => some ([], rest)
    | s => inlinePairs item s.length s
  let members ← Members.putPairs pairs []
  some (.table (memberValues members), rest)

/-- A value that holds fewer than `depth` levels of arrays and inline tables. -/
def value : (depth : Nat) → Reader Value
  | depth, s =>
    match s with
    | '"' :: _ | '\'' :: _ => (string s).map fun (text, rest) => (.string text, rest)
    | '[' :: rest =>
      match depth with
      | 0 => none
      | depth + 1 =>
        (arrayItems (value depth) (rest.length + 1) rest).map fun (vs, rest) => (.array vs, rest)
    | '{' :: rest =>
      match depth with
      | 0 => none
      | depth + 1 => inlineTable (value depth) rest
    | 't' :: 'r' :: 'u' :: 'e' :: rest => some (.boolean true, rest)
    | 'f' :: 'a' :: 'l' :: 's' :: 'e' :: rest => some (.boolean false, rest)
    | _ => number s

def endOfLine (s : Text) : Option Text :=
  match skipBlanks s with
  | [] => some []
  | '#' :: rest =>
    let rest := rest.dropWhile fun c => !isControl c
    if rest.isEmpty then some [] else lineEnd? rest
  | s => lineEnd? s

/-- A header names a table, or one more element of an array of tables. -/
structure Header where
  path : List Text
  isElement : Bool

def header (s : Text) : Option (Header × Text) := do
  match s with
  | '[' :: '[' :: rest =>
    match ← key rest with
    | (path, ']' :: ']' :: rest) => some (⟨path, true⟩, rest)
    | _ => none
  | '[' :: rest =>
    match ← key rest with
    | (path, ']' :: rest) => some (⟨path, false⟩, rest)
    | _ => none
  | _ => none

structure Part where
  header : Header
  pairs : List Members.Pair

def parts (current : Part) : (fuel : Nat) → Text → Option (List Part)
  | 0, _ => none
  | fuel + 1, s =>
    match skipBlanks s with
    | [] => some [current]
    | '#' :: rest => (endOfLine ('#' :: rest)).bind (parts current fuel)
    | '[' :: rest => do
      let (h, rest) ← header ('[' :: rest)
      let following ← (endOfLine rest).bind (parts ⟨h, []⟩ fuel)
      some (current :: following)
    | s =>
      match lineEnd? s with
      | some rest => parts current fuel rest
      | none => do
        let (p, rest) ← pair (value (depthLimit - 1)) s
        (endOfLine rest).bind (parts ⟨current.header, current.pairs ++ [p]⟩ fuel)

/-- Puts the table of a section at its path. A table may be made once by a header, and not when
dotted keys made it; an array of tables only grows. -/
def place (isElement : Bool) (pairs : List Members.Pair) (last : Text) :
    (path : List Text) → Members → Option Members
  | [], ms =>
    match ms.find? last, isElement with
    | none, false =>
      (Members.putPairs pairs []).map fun t => ms ++ [(last, .table .header t)]
    | none, true =>
      (Members.putPairs pairs []).map fun t => ms ++ [(last, .tables [] t)]
    | some (.table .implied below), false =>
      (Members.putPairs pairs below).map fun t => ms.remove last ++ [(last, .table .header t)]
    | some (.tables earlier element), true =>
      (Members.putPairs pairs []).map fun t =>
        ms.replace last (.tables (earlier ++ [element]) t)
    | _, _ => none
  | segment :: path, ms =>
    match ms.find? segment with
    | none =>
      (place isElement pairs last path []).map fun below => ms ++ [(segment, .table .implied below)]
    | some (.table origin below) =>
      (place isElement pairs last path below).map fun below =>
        ms.replace segment (.table origin below)
    | some (.tables earlier element) =>
      (place isElement pairs last path element).map fun element =>
        ms.replace segment (.tables earlier element)
    | some (.leaf _) => none

def placePart (ms : Members) (part : Part) : Option Members :=
  match part.header.path with
  | [] => Members.putPairs part.pairs ms
  | path => place part.header.isElement part.pairs (path.getLastD []) path.dropLast ms

def placeParts : List Part → Members → Option Members
  | [], ms => some ms
  | part :: rest, ms => (placePart ms part).bind (placeParts rest)

/-- The table that a text describes; a byte order mark may stand in front. -/
def read (s : Text) : Option Table := do
  let s := match s with
    | '\uFEFF' :: rest => rest
    | _ => s
  let sections ← parts ⟨⟨[], false⟩, []⟩ (s.length + 1) s
  let members ← placeParts sections []
  let values ← memberMeanings? (memberValues members)
  some (Dictionary.ofList values)

end Phrasebook.Toml
