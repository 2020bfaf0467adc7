import Phrasebook.Text.Numeral
import Phrasebook.Text.Printable

/-!
String literals of the generated source. Quotes, backslashes and the common controls have short
escapes; every other character that cannot be shown is written as its code point in braces. A
literal at the front of a text can be read back.
-/

namespace Phrasebook.Text

def hexDigits (n : Nat) : Text := Nat.toDigits 16 n

def quoteChar (c : Char) : Text :=
  if c = '\x00' then ['\\', '0']
  else if c = '\t' then ['\\', 't']
  else if c = '\r' then ['\\', 'r']
  else if c = '\n' then ['\\', 'n']
  else if c = '"' then ['\\', '"']
  else if c = '\\' then ['\\', '\\']
  else if isPrintable c then [c]
  else "\\u\x7b".toList ++ hexDigits c.toNat ++ "\x7d".toList

def quoteBody (s : Text) : Text := s.flatMap quoteChar

def quoted (s : Text) : Text := '"' :: quoteBody s ++ ['"']

/-- How far the reader of a literal has come: between characters, after a backslash, before the
brace of a code point, or among its digits. -/
inductive LiteralState where
  | plain
  | escaped
  | brace
  | digits (n : Nat)
deriving DecidableEq, Repr

def shortEscape? (c : Char) : Option Char :=
  if c = '0' then some '\x00'
  else if c = 't' then some '\t'
  else if c = 'r' then some '\r'
  else if c = 'n' then some '\n'
  else if c = '"' ∨ c = '\'' ∨ c = '\\' then some c
  else none

def readLiteralBody : LiteralState → Text → Option (Text × Text)
  | _, [] => none
  | .plain, c :: rest =>
    if c = '"' then some ([], rest)
    else if c = '\\' then readLiteralBody .escaped rest
    else (readLiteralBody .plain rest).map fun (s, left) => (c :: s, left)
  | .escaped, c :: rest =>
    if c = 'u' then readLiteralBody .brace rest
    else do
      let d ← shortEscape? c
      (readLiteralBody .plain rest).map fun (s, left) => (d :: s, left)
  | .brace, c :: rest => if c = '{' then readLiteralBody (.digits 0) rest else none
  | .digits n, c :: rest =>
    if c = '}' then do
      let d ← scalar? n
      (readLiteralBody .plain rest).map fun (s, left) => (d :: s, left)
    else do readLiteralBody (.digits (n * 16 + (← hexDigit? c))) rest

def readLiteral : Text → Option (Text × Text)
  | '"' :: rest => readLiteralBody .plain rest
  | _ => none

end Phrasebook.Text
