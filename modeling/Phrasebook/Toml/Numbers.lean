import Phrasebook.Toml.Value

/-!
Numbers and dates. A run of the characters that numbers are made of is classified as a whole, since
nothing of the kind may follow a value directly. Integers have 64 bits; a float that rounds to
positive infinity is refused; dates follow the calendar.
-/

namespace Phrasebook.Toml

/-- Digits with single underscores between them, without the underscores. -/
def digitRun (isDigit : Char → Bool) (s : Text) : Option Text :=
  let groups := s.splitOn '_'
  if groups.all (fun g => !g.isEmpty && g.all isDigit) then some groups.flatten else none

def isDigit (c : Char) : Bool := c.isDigit

def sign : Text → Bool × Text
  | '-' :: rest => (true, rest)
  | '+' :: rest => (false, rest)
  | s => (false, s)

/-- The digits of a decimal numeral; zero leads only alone. -/
def decimalDigits (s : Text) : Option Text := do
  let digits ← digitRun isDigit s
  match digits with
  | '0' :: _ :: _ => none
  | _ => some digits

def integerMax : Nat := 0x7fffffffffffffff

def integer? (s : Text) : Option Int :=
  match s with
  | '0' :: 'x' :: rest => based 16 rest
  | '0' :: 'o' :: rest => based 8 rest
  | '0' :: 'b' :: rest => based 2 rest
  | _ => do
    let (negative, digits) := sign s
    let n ← (decimalDigits digits).bind (Text.numeral? 10)
    if negative then if n ≤ integerMax + 1 then some (-(n : Int)) else none
    else if n ≤ integerMax then some n else none
where
  based (base : Nat) (s : Text) : Option Int := do
    let n ← (digitRun (fun c => (Text.hexDigit? c).isSome) s).bind (Text.numeral? base)
    if n ≤ integerMax then some n else none

/-- Whether `digits · 10 ^ exponent` rounds to infinity: from half a unit above the greatest
double on. -/
def overflows (digits : Nat) (exponent : Int) : Bool :=
  let magnitude : Int := (Nat.toDigits 10 digits).length + exponent
  if digits = 0 ∨ magnitude < 300 then false
  else if magnitude > 310 then true
  else
    let bound := Nat.pow 2 1024 - Nat.pow 2 970
    if 0 ≤ exponent then bound ≤ digits * Nat.pow 10 exponent.toNat
    else bound * Nat.pow 10 (-exponent).toNat ≤ digits

/-- A fraction or an exponent makes a float. -/
def isFloat (s : Text) : Bool :=
  let (negative, unsigned) := sign s
  if unsigned = "inf".toList ∨ unsigned = "nan".toList then true
  else
    let isMark := fun c => c == 'e' || c == 'E'
    let mantissa := unsigned.takeWhile (!isMark ·)
    let exponent? := (unsigned.dropWhile (!isMark ·)).tail?
    let (whole, fraction?) :=
      match Cut.first '.' mantissa with
      | some (whole, fraction) => (whole, some fraction)
      | none => (mantissa, none)
    match exponent?, fraction? with
    | none, none => false
    | _, _ =>
      let parts : Option Bool := do
        let whole ← decimalDigits whole
        let fraction ← match fraction? with
          | some f => digitRun isDigit f
          | none => some []
        let (down, exponent) ← match exponent? with
          | some e => do
            let (down, digits) := sign e
            let digits ← digitRun isDigit digits
            some (down, ← Text.numeral? 10 digits)
          | none => some (false, 0)
        let digits ← Text.numeral? 10 (whole ++ fraction)
        let scale : Int := (if down then -(exponent : Int) else exponent) - fraction.length
        some (negative || !overflows digits scale)
      parts.getD false

def isLeapYear (year : Nat) : Bool := year % 4 == 0 && (year % 100 != 0 || year % 400 == 0)

def daysInMonth (year month : Nat) : Nat :=
  if month = 2 then if isLeapYear year then 29 else 28
  else if month = 4 ∨ month = 6 ∨ month = 9 ∨ month = 11 then 30
  else 31

def field (width : Nat) (s : Text) : Option (Nat × Text) := do
  let digits := s.take width
  if digits.length = width ∧ digits.all isDigit then
    some (← Text.numeral? 10 digits, s.drop width)
  else none

def after (c : Char) : Text → Option Text
  | d :: rest => if d = c then some rest else none
  | [] => none

def date (s : Text) : Option Text := do
  let (year, s) ← field 4 s
  let (month, s) ← (after '-' s).bind (field 2)
  let (day, s) ← (after '-' s).bind (field 2)
  if 1 ≤ month ∧ month ≤ 12 ∧ 1 ≤ day ∧ day ≤ daysInMonth year month then some s else none

/-- How far a clock may go: its last hour, and the distances to universal time in hours and minutes.
Minutes of the hour and seconds are the same for all. -/
structure ClockRule where
  lastHour : Nat
  isOffset : Nat → Nat → Bool

def ClockRule.plain : ClockRule := ⟨23, fun hours minutes => hours ≤ 23 && minutes ≤ 59⟩

/-- The clock of a date or time in a string, which counts a whole day. -/
def ClockRule.inString : ClockRule := ⟨24, fun hours minutes => hours * 60 + minutes ≤ 24 * 60⟩

/-- A time of day with seconds, in which a leap second may be sixty, and the rest. -/
def time (r : ClockRule) (s : Text) : Option Text := do
  let (hour, s) ← field 2 s
  let (minute, s) ← (after ':' s).bind (field 2)
  let (second, s) ← (after ':' s).bind (field 2)
  if hour ≤ r.lastHour ∧ minute ≤ 59 ∧ second ≤ 60 then
    match s with
    | '.' :: rest =>
      if (rest.takeWhile isDigit).isEmpty then none else some (rest.dropWhile isDigit)
    | _ => some s
  else none

def offset (r : ClockRule) (s : Text) : Option Text :=
  match s with
  | 'Z' :: rest | 'z' :: rest => some rest
  | '+' :: rest | '-' :: rest => do
    let (hour, s) ← field 2 rest
    let (minute, s) ← (after ':' s).bind (field 2)
    if r.isOffset hour minute then some s else none
  | _ => some s

/-- A date, a time, or both with `T` or a blank between them; an offset only after both. -/
def moment (r : ClockRule) (s : Text) : Option Text :=
  match date s with
  | some rest =>
    match rest with
    | 'T' :: t | 't' :: t => (time r t).bind (offset r)
    | ' ' :: t => if startsTime t then (time r t).bind (offset r) else some rest
    | _ => some rest
  | none => time r s
where
  startsTime (t : Text) : Bool :=
    match field 2 t with
    | some (_, ':' :: _) => true
    | _ => false

def isNumberChar (c : Char) : Bool :=
  c.isAlphanum || c == '_' || c == '+' || c == '-' || c == '.'

/-- Whether a text starts as a date or a time does: with four digits and a hyphen, or with two and
a colon. -/
def startsMoment (s : Text) : Bool :=
  match field 4 s, field 2 s with
  | some (_, '-' :: _), _ => true
  | _, some (_, ':' :: _) => true
  | _, _ => false

def number : Reader Value := fun s =>
  if startsMoment s then
    (moment .plain s).map fun rest => (.moment (s.take (s.length - rest.length)), rest)
  else
    let run := s.takeWhile isNumberChar
    let rest := s.dropWhile isNumberChar
    match integer? run with
    | some n => some (.integer n, rest)
    | none => if isFloat run then some (.float run, rest) else none

end Phrasebook.Toml
