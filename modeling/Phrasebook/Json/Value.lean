import Phrasebook.Text.Numeral

/-!
Values of a JSON text and how they are read. Objects keep their members in order, repeated keys
included, so that a reader of settings can refuse them. A string that holds half of a surrogate
pair is no text, which only matters where a text is asked for.
-/

namespace Phrasebook.Json

inductive Value where
  | null
  | boolean (value : Bool)
  | number (written : Text)
  | string (text : Option Text)
  | array (items : List Value)
  | object (members : List (Option Text × Value))
deriving Repr

abbrev Reader (α : Type) := Text → Option (α × Text)

def isBlank (c : Char) : Bool := c == ' ' || c == '\n' || c == '\t' || c == '\r'

def skipBlanks (s : Text) : Text := s.dropWhile isBlank

/-- A part of a string: a character, or half of a surrogate pair. -/
inductive Piece where
  | char (c : Char)
  | half (unit : Nat)

def unit : Reader Nat := fun s => do
  let digits := s.take 4
  if digits.length < 4 then none
  else some (← Text.numeral? 16 digits, s.drop 4)

def simpleEscape? (c : Char) : Option Char :=
  match c with
  | '"' => some '"'
  | '\\' => some '\\'
  | '/' => some '/'
  | 'b' => some '\x08'
  | 'f' => some '\x0c'
  | 'n' => some '\n'
  | 'r' => some '\r'
  | 't' => some '\t'
  | _ => none

def pieces : (fuel : Nat) → Reader (List Piece)
  | 0, _ => none
  | _, [] => none
  | fuel + 1, c :: rest =>
    if c = '"' then some ([], rest)
    else if c.toNat < 0x20 then none
    else if c = '\\' then
      match rest with
      | [] => none
      | 'u' :: rest => do
        let (n, rest) ← unit rest
        let (ps, rest) ← pieces fuel rest
        let p := match Text.scalar? n with
          | some c => .char c
          | none => .half n
        some (p :: ps, rest)
      | e :: rest => do
        let c ← simpleEscape? e
        let (ps, rest) ← pieces fuel rest
        some (.char c :: ps, rest)
    else (pieces fuel rest).map fun (ps, rest) => (.char c :: ps, rest)

/-- The text of pieces: a high half and a low half right after it are one character, and no half
stands alone. -/
def textOf : List Piece → Option Text
  | [] => some []
  | .char c :: rest => (textOf rest).map (c :: ·)
  | .half high :: .half low :: rest =>
    if high < 0xdc00 ∧ 0xdc00 ≤ low then do
      let c ← Text.scalar? (0x10000 + (high - 0xd800) * 0x400 + (low - 0xdc00))
      let text ← textOf rest
      some (c :: text)
    else none
  | .half _ :: _ => none

def string : Reader (Option Text) := fun s =>
  (pieces (s.length + 1) s).map fun (ps, rest) => (textOf ps, rest)

def digits : Reader Text := fun s =>
  let run := s.takeWhile Char.isDigit
  if run.isEmpty then none else some (run, s.dropWhile Char.isDigit)

def number : Reader Text := fun s => do
  let (sign, s) := match s with
    | '-' :: rest => (['-'], rest)
    | _ => ([], s)
  let (whole, s) ← digits s
  if whole.length ≠ 1 ∧ whole.head? = some '0' then none
  else
    let (fraction, s) ← match s with
      | '.' :: rest => do
        let (f, rest) ← digits rest
        some ('.' :: f, rest)
      | _ => some ([], s)
    let (exponent, s) ← match s with
      | 'e' :: rest | 'E' :: rest => do
        let (mark, rest) := match rest with
          | '+' :: rest => (['e', '+'], rest)
          | '-' :: rest => (['e', '-'], rest)
          | _ => (['e'], rest)
        let (e, rest) ← digits rest
        some (mark ++ e, rest)
      | _ => some ([], s)
    some (sign ++ whole ++ fraction ++ exponent, s)

def items (item : Reader Value) : (fuel : Nat) → Reader (List Value)
  | 0, _ => none
  | fuel + 1, s => do
    let (v, rest) ← item s
    match skipBlanks rest with
    | ',' :: rest =>
      let (vs, rest) ← items item fuel rest
      some (v :: vs, rest)
    | ']' :: rest => some ([v], rest)
    | _ => none

def members (item : Reader Value) : (fuel : Nat) → Reader (List (Option Text × Value))
  | 0, _ => none
  | fuel + 1, s =>
    match skipBlanks s with
    | '"' :: rest => do
      let (key, rest) ← string rest
      match skipBlanks rest with
      | ':' :: rest =>
        let (v, rest) ← item rest
        match skipBlanks rest with
        | ',' :: rest =>
          let (ms, rest) ← members item fuel rest
          some ((key, v) :: ms, rest)
        | '}' :: rest => some ([(key, v)], rest)
        | _ => none
      | _ => none
    | _ => none

/-- A value in which at most `depth` arrays and objects nest; the length of a text is enough. -/
def value : (depth : Nat) → Reader Value
  | depth, s =>
    match skipBlanks s with
    | 'n' :: 'u' :: 'l' :: 'l' :: rest => some (.null, rest)
    | 't' :: 'r' :: 'u' :: 'e' :: rest => some (.boolean true, rest)
    | 'f' :: 'a' :: 'l' :: 's' :: 'e' :: rest => some (.boolean false, rest)
    | '"' :: rest => (string rest).map fun (s, rest) => (.string s, rest)
    | '[' :: rest =>
      match depth with
      | 0 => none
      | depth + 1 =>
        match skipBlanks rest with
        | ']' :: rest => some (.array [], rest)
        | rest => (items (value depth) rest.length rest).map fun (vs, rest) => (.array vs, rest)
    | '{' :: rest =>
      match depth with
      | 0 => none
      | depth + 1 =>
        match skipBlanks rest with
        | '}' :: rest => some (.object [], rest)
        | rest =>
          (members (value depth) rest.length rest).map fun (ms, rest) => (.object ms, rest)
    | s => (number s).map fun (n, rest) => (.number n, rest)

/-- Reads a text that holds one value and nothing else but white space. -/
def read (s : Text) : Option Value :=
  match value s.length s with
  | some (v, rest) => if (skipBlanks rest).isEmpty then some v else none
  | none => none

end Phrasebook.Json
