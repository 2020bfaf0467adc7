import Phrasebook.Text.Dictionary
import Phrasebook.Text.Numeral

/-!
Values of a TOML text. Only strings and tables matter to a document, so numbers and dates keep the
form in which they were written. The members of a table are listed in key order.
-/

namespace Phrasebook.Toml

inductive Value where
  | string (text : Text)
  | integer (value : Int)
  | float (written : Text)
  | boolean (value : Bool)
  | moment (written : Text)
  | array (items : List Value)
  | table (members : List (Text × Value))
deriving Repr

abbrev Table := Dictionary Value

/-- A reader takes what it can use from the front of a text and returns the rest. -/
abbrev Reader (α : Type) := Text → Option (α × Text)

/-- Control characters other than the tab stand nowhere, line ends apart. -/
def isControl (c : Char) : Bool := (c.toNat < 0x20 && c != '\t') || c.toNat == 0x7f

def isBlank (c : Char) : Bool := c == ' ' || c == '\t'

def skipBlanks (s : Text) : Text := s.dropWhile isBlank

/-- Removes one line end, a line feed with or without a carriage return before it. -/
def lineEnd? : Text → Option Text
  | '\n' :: rest => some rest
  | '\r' :: '\n' :: rest => some rest
  | _ => none

end Phrasebook.Toml
