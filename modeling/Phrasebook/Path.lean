import Phrasebook.Text.Quoted
import Phrasebook.Text.Utf8

/-!
Paths are byte lists in which slashes separate components. Repeated slashes, inner dots and slashes
at the end do not count; a leading slash and a leading dot do. Paths are compared, ordered and
shortened by their components, while the parts that remain keep their spelling.
-/

namespace Phrasebook

abbrev Path := Bytes

namespace Path

def slash : UInt8 := 47

def dot : UInt8 := 46

def ofText (s : Text) : Path := Utf8.encode s

/-- The path as text, with replacement characters for what is no text. -/
def toText (p : Path) : Text := Utf8.decodeLossy p

inductive Component where
  | root
  | current
  | parent
  | named (name : Bytes)
deriving DecidableEq, Repr

def isAbsolute (p : Path) : Bool := p.head? == some slash

/-- Splits off what a path starts at: the root, the current directory if that is written, or
nothing. -/
def splitHead : Path → Option Component × Path
  | [] => (none, [])
  | b :: rest =>
    if b = slash then (some .root, rest)
    else if b = dot ∧ (rest.isEmpty ∨ rest.head? = some slash) then (some .current, rest)
    else (none, b :: rest)

def component? (name : Bytes) : Option Component :=
  if name = [] ∨ name = [dot] then none
  else if name = [dot, dot] then some .parent
  else some (.named name)

def bodyComponents (body : Path) : List Component := (body.splitOn slash).filterMap component?

def components (p : Path) : List Component :=
  let (head, body) := splitHead p
  head.toList ++ bodyComponents body

def skipEmpty : Path → Path
  | [] => []
  | b :: rest =>
    if b = slash then skipEmpty rest
    else if b = dot then
      match rest with
      | [] => []
      | c :: after => if c = slash then skipEmpty after else b :: rest
    else b :: rest

def skipEmptyEnd (body : Path) : Path := (skipEmpty body.reverse).reverse

def dropFirst (body : Path) : Path := (skipEmpty body |>.dropWhile (· != slash)).drop 1

def writtenHead : Option Component → Path
  | some .root => [slash]
  | some .current => [dot]
  | _ => []

/-- The spelling of what is left after the first `count` components. -/
def afterComponents (count : Nat) (p : Path) : Path :=
  let (head, body) := splitHead p
  if count = 0 then writtenHead head ++ skipEmptyEnd body
  else
    let inBody := count - head.toList.length
    skipEmptyEnd (skipEmpty (Nat.repeat dropFirst inBody body))

/-- What is left of a path below `base`, or nothing when it does not lie there. -/
def relativeTo (base p : Path) : Option Path :=
  if base.components.isPrefixOf p.components then
    some (afterComponents base.components.length p)
  else none

/-- What is left of a path without its last component. The root and the empty path lie nowhere. -/
def parent? (p : Path) : Option Path :=
  let (head, body) := splitHead p
  if (bodyComponents body).isEmpty then
    if head = some .current then some [] else none
  else
    let above := (skipEmptyEnd body).reverse.dropWhile (· != slash)
    some (writtenHead head ++ skipEmptyEnd above.reverse)

/-- Appends a path; an absolute one replaces what stands before. -/
def join (p q : Path) : Path :=
  if isAbsolute q then q
  else if p.isEmpty ∨ p.getLast? = some slash then p ++ q
  else p ++ slash :: q

/-- Components in their order: the root, a leading dot, the parent, then names by their bytes. -/
def Component.rank : Component → List Nat
  | root => [0]
  | current => [1]
  | parent => [2]
  | named name => 3 :: name.map (·.toNat)

def le (p q : Path) : Bool :=
  !decide (q.components.map Component.rank < p.components.map Component.rank)

def hexByte (b : UInt8) : Text :=
  let digits := (Nat.toDigits 16 b.toNat).map Char.toUpper
  List.replicate (2 - digits.length) '0' ++ digits

/-- The path in quotes, escaped as text is and with single quotes escaped too; bytes that are no
text are shown in hexadecimal. -/
def quoted (p : Path) : Text :=
  let body := (Utf8.spans p).flatMap fun
    | .inl c => if c = '\'' then "\\'".toList else Text.quoteChar c
    | .inr bytes => bytes.flatMap fun b => "\\x".toList ++ hexByte b
  '"' :: body ++ ['"']

def fileName? (p : Path) : Option Bytes :=
  match p.components.getLast? with
  | some (.named name) => some name
  | _ => none

end Path

end Phrasebook
