import Phrasebook.Text.Basic

/-!
The characters of the Unicode property of white space, and trimming by it.
-/

namespace Phrasebook.Text

def isBlank (c : Char) : Bool :=
  let n := c.toNat
  (0x09 ≤ n && n ≤ 0x0d) || n == 0x20 || n == 0x85 || n == 0xa0 || n == 0x1680 ||
    (0x2000 ≤ n && n ≤ 0x200a) || n == 0x2028 || n == 0x2029 || n == 0x202f || n == 0x205f ||
    n == 0x3000

def trim (s : Text) : Text := Cut.trim isBlank s

end Phrasebook.Text
