import Phrasebook.Toml.Value

/-!
The four ways to write a string, and keys. A basic string has escapes and a literal string has
none. The tripled forms run over lines, drop a line end right after the opening quotes, and end at
three quotes, before which up to two more belong to the text. Line ends inside are read as line
feeds.
-/

namespace Phrasebook.Toml

def escape : Reader Char
  | 'b' :: rest => some ('\x08', rest)
  | 't' :: rest => some ('\t', rest)
  | 'n' :: rest => some ('\n', rest)
  | 'f' :: rest => some ('\x0c', rest)
  | 'r' :: rest => some ('\r', rest)
  | '"' :: rest => some ('"', rest)
  | '\\' :: rest => some ('\\', rest)
  | 'u' :: rest => codePoint 4 rest
  | 'U' :: rest => codePoint 8 rest
  | _ => none
where
  codePoint (count : Nat) (s : Text) : Option (Char × Text) := do
    let digits := s.take count
    if digits.length < count then none
    else
      let c ← (Text.numeral? 16 digits).bind Text.scalar?
      some (c, s.drop count)

def basicBody : (fuel : Nat) → Reader Text
  | 0, _ => none
  | _, [] => none
  | fuel + 1, c :: rest =>
    if c = '"' then some ([], rest)
    else if c = '\\' then do
      let (d, rest) ← escape rest
      let (text, rest) ← basicBody fuel rest
      some (d :: text, rest)
    else if isControl c then none
    else do
      let (text, rest) ← basicBody fuel rest
      some (c :: text, rest)

def literalBody : Reader Text
  | [] => none
  | c :: rest =>
    if c = '\'' then some ([], rest)
    else if isControl c then none
    else (literalBody rest).map fun (text, rest) => (c :: text, rest)

/-- At three or more quotes the string ends; up to two of the run belong to it. -/
def closing (quote : Char) (s : Text) : Option (Text × Text) :=
  let run := (s.takeWhile (· == quote)).length
  if run < 3 then none
  else
    let inside := min (run - 3) 2
    some (List.replicate inside quote, s.drop (inside + 3))

/-- After a backslash at the end of a line, all blanks and line ends are dropped. -/
def joinLines (s : Text) : Option Text :=
  (lineEnd? (skipBlanks s)).map skipLines
where
  skipLines : Text → Text
    | '\r' :: '\n' :: rest => skipLines rest
    | c :: rest => if isBlank c || c == '\n' then skipLines rest else c :: rest
    | [] => []

/-- A string over several lines after its opening quotes; escapes count in basic ones only. -/
def linesBody (quote : Char) : (fuel : Nat) → Reader Text
  | 0, _ => none
  | fuel + 1, s =>
    match closing quote s with
    | some closed => some closed
    | none =>
      match s with
      | [] => none
      | '\n' :: rest => (linesBody quote fuel rest).map fun (text, rest) => ('\n' :: text, rest)
      | '\r' :: '\n' :: rest =>
        (linesBody quote fuel rest).map fun (text, rest) => ('\n' :: text, rest)
      | c :: rest =>
        if c = '\\' ∧ quote = '"' then
          match joinLines rest with
          | some rest => linesBody quote fuel rest
          | none => do
            let (d, rest) ← escape rest
            let (text, rest) ← linesBody quote fuel rest
            some (d :: text, rest)
        else if isControl c then none
        else (linesBody quote fuel rest).map fun (text, rest) => (c :: text, rest)

def lines (quote : Char) (s : Text) : Option (Text × Text) :=
  let s := (lineEnd? s).getD s
  linesBody quote (s.length + 1) s

def string : Reader Text
  | '"' :: '"' :: '"' :: rest => lines '"' rest
  | '\'' :: '\'' :: '\'' :: rest => lines '\'' rest
  | '"' :: rest => basicBody (rest.length + 1) rest
  | '\'' :: rest => literalBody rest
  | _ => none

def isBareKeyChar (c : Char) : Bool := c.isAlphanum || c == '_' || c == '-'

/-- One segment of a key: quoted on one line, or bare and not empty. -/
def keySegment : Reader Text
  | '"' :: rest => basicBody (rest.length + 1) rest
  | '\'' :: rest => literalBody rest
  | s =>
    let bare := s.takeWhile isBareKeyChar
    if bare.isEmpty then none else some (bare, s.dropWhile isBareKeyChar)

/-- Keys have fewer segments than this, and values nest less deep. -/
def depthLimit : Nat := 80

/-- A dotted key; blanks may stand around its segments. -/
def key (s : Text) : Option (List Text × Text) := do
  let (segments, rest) ← go s.length s
  if segments.length < depthLimit then some (segments, rest) else none
where
  go : (fuel : Nat) → Reader (List Text)
    | 0, _ => none
    | fuel + 1, s => do
      let (segment, rest) ← keySegment (skipBlanks s)
      match skipBlanks rest with
      | '.' :: rest =>
        let (segments, rest) ← go fuel rest
        some (segment :: segments, rest)
      | rest => some ([segment], rest)

end Phrasebook.Toml
