import Phrasebook.Text.Basic

/-!
The byte form of text. Encoding writes one to four bytes for a character. Decoding works on any
bytes: a sequence that breaks off or cannot start is one fault, which strict reading refuses and
lossy reading shows as a replacement character.
-/

namespace Phrasebook.Utf8

def encodeChar (c : Char) : Bytes :=
  let n := c.toNat
  let tail := fun (unit : Nat) => UInt8.ofNat (0x80 + n / unit % 0x40)
  if n < 0x80 then [UInt8.ofNat n]
  else if n < 0x800 then [UInt8.ofNat (0xc0 + n / 0x40), tail 1]
  else if n < 0x10000 then [UInt8.ofNat (0xe0 + n / 0x1000), tail 0x40, tail 1]
  else [UInt8.ofNat (0xf0 + n / 0x40000), tail 0x1000, tail 0x40, tail 1]

def encode (s : Text) : Bytes := s.flatMap encodeChar

/-- A sequence that has begun: its value so far and the ranges in which its next bytes have to
lie. -/
structure Pending where
  value : Nat
  ranges : List (Nat × Nat)

/-- What has been read before a byte: nothing that is still open, or a begun sequence. -/
abbrev State := Option Pending

def anyTail : Nat × Nat := (0x80, 0xbf)

/-- The ranges that exclude long forms, surrogates and values above the last code point. -/
def secondRange (first : Nat) : Nat × Nat :=
  if first = 0xe0 then (0xa0, 0xbf)
  else if first = 0xed then (0x80, 0x9f)
  else if first = 0xf0 then (0x90, 0xbf)
  else if first = 0xf4 then (0x80, 0x8f)
  else anyTail

/-- A byte that does not go on with a sequence. Gives what is complete with it: a character, or
nothing where the byte is a fault. -/
def start (b : Nat) : List (Option Char) × State :=
  if b < 0x80 then ([some (Char.ofNat b)], none)
  else if 0xc2 ≤ b ∧ b ≤ 0xdf then ([], some ⟨b - 0xc0, [anyTail]⟩)
  else if 0xe0 ≤ b ∧ b ≤ 0xef then ([], some ⟨b - 0xe0, [secondRange b, anyTail]⟩)
  else if 0xf0 ≤ b ∧ b ≤ 0xf4 then ([], some ⟨b - 0xf0, [secondRange b, anyTail, anyTail]⟩)
  else ([none], none)

/-- One byte more. A byte that breaks a sequence off starts anew. -/
def feed (state : State) (b : Nat) : List (Option Char) × State :=
  match state with
  | some ⟨value, (low, high) :: ranges⟩ =>
    if low ≤ b ∧ b ≤ high then
      let value := value * 64 + (b - 0x80)
      if ranges.isEmpty then ([some (Char.ofNat value)], none) else ([], some ⟨value, ranges⟩)
    else
      let (found, state) := start b
      (none :: found, state)
  | _ => start b

def pieces (state : State) : Bytes → List (Option Char)
  | [] => if state.isSome then [none] else []
  | b :: rest =>
    let (found, state) := feed state b.toNat
    found ++ pieces state rest

/-- Gives the bytes of faults back: characters in their order, and the bytes between them. A fault
takes the bytes that no character takes. -/
def spans (bytes : Bytes) : List (Char ⊕ Bytes) := go (pieces none bytes) bytes
where
  go : List (Option Char) → Bytes → List (Char ⊕ Bytes)
    | [], _ => []
    | some c :: rest, bytes => .inl c :: go rest (bytes.drop (encodeChar c).length)
    | none :: rest, bytes =>
      let length := faultLength bytes
      .inr (bytes.take length) :: go rest (bytes.drop length)
  /- As many bytes as belong to the sequence that breaks off, one at least. -/
  faultLength (bytes : Bytes) : Nat :=
    ((List.range bytes.length).find? fun n =>
      0 < n && (pieces none (bytes.take (n + 1))).length != 1).getD bytes.length

def decode? (bytes : Bytes) : Option Text := (pieces none bytes).mapM id

/-- The text with a replacement character for every fault. -/
def decodeLossy (bytes : Bytes) : Text := (pieces none bytes).map fun p => p.getD '\uFFFD'

end Phrasebook.Utf8
