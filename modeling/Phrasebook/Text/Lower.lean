import Phrasebook.Text.LowerTable
import Phrasebook.Text.CaseContext

/-!
Lower case of whole texts. Every character is replaced by its lower case; the dotted capital I
becomes two characters, and a capital sigma at the end of a word becomes a final sigma.
-/

namespace Phrasebook.Text

def lowerChar (c : Char) : Text :=
  let n := c.toNat
  if n < 0x80 then [c.toLower]
  else if n = 0x130 then ['i', '\u0307']
  else
    match lowerRuns.find? (·.holds n) with
    | some r => [Char.ofNat (n + r.shift).toNat]
    | none => [c]

def startsCased (s : Text) : Bool :=
  match s.dropWhile isCaseIgnorable with
  | c :: _ => isCased c
  | [] => false

/-- Lower case of a text of which `before` was read, last character first. -/
def lowerAfter (before : Text) : Text → Text
  | [] => []
  | c :: rest =>
    let lowered :=
      if c = 'Σ' then (if startsCased before && !startsCased rest then ['ς'] else ['σ'])
      else lowerChar c
    lowered ++ lowerAfter (c :: before) rest

def toLower (s : Text) : Text := lowerAfter [] s

end Phrasebook.Text
