import Phrasebook.Text.Quoted

/-!
Messages as they are shown on a terminal. The controls a terminal could obey are spelled out:
escape, bell, backspace, form feed, delete and those above ASCII. Tabs, ends of lines and all other
characters stay as they are.
-/

namespace Phrasebook.Text

def drivesTerminal (c : Char) : Bool :=
  c == '\x1b' || c == '\x07' || c == '\x08' || c == '\x0c' || c == '\x7f'

/-- A character of a message: controls of ASCII with two digits, those above it in braces. -/
def showChar (c : Char) : Text :=
  if drivesTerminal c then
    "\\x".toList ++ (if c.toNat < 16 then ['0'] else []) ++ hexDigits c.toNat
  else if 0x80 ≤ c.toNat ∧ c.toNat ≤ 0x9f then
    "\\u\x7b".toList ++ hexDigits c.toNat ++ "\x7d".toList
  else [c]

def shown (s : Text) : Text := s.flatMap showChar

end Phrasebook.Text
