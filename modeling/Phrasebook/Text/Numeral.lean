import Phrasebook.Text.Basic

/-!
Numerals in bases up to sixteen, and the characters that code points stand for.
-/

namespace Phrasebook.Text

def hexDigit? (c : Char) : Option Nat :=
  if '0' ≤ c ∧ c ≤ '9' then some (c.toNat - 48)
  else if 'a' ≤ c ∧ c ≤ 'f' then some (c.toNat - 87)
  else if 'A' ≤ c ∧ c ≤ 'F' then some (c.toNat - 55)
  else none

/-- The number that the digits of a base spell, or nothing when one of them is no digit of it. -/
def numeral? (base : Nat) (digits : Text) : Option Nat :=
  digits.foldl (fun n c => do
    let n ← n
    let d ← hexDigit? c
    if d < base then some (n * base + d) else none) (some 0)

/-- The character of a code point; surrogates have none. -/
def scalar? (n : Nat) : Option Char :=
  if h : n.isValidChar then some (Char.ofNatAux n h) else none

end Phrasebook.Text
