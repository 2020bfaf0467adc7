/-!
Text is a list of characters, so that every rule about it is a rule about lists. This module holds
the cuts that the formats of the library share: at the last separator, around a leading mark, and
at both ends.
-/

namespace Phrasebook

abbrev Text := List Char

/-- File names, paths and file contents are bytes; they need not be text. -/
abbrev Bytes := List UInt8

namespace Cut

variable {α : Type} [DecidableEq α]

/-- The parts before and after the first `sep`, or nothing when there is none. -/
def first (sep : α) : List α → Option (List α × List α)
  | [] => none
  | x :: rest => if x = sep then some ([], rest) else (first sep rest).map fun (a, b) => (x :: a, b)

/-- The parts before and after the last `sep`, or nothing when there is none. -/
def last (sep : α) : List α → Option (List α × List α)
  | [] => none
  | x :: rest =>
    match last sep rest with
    | some (a, b) => some (x :: a, b)
    | none => if x = sep then some ([], rest) else none

/-- What follows the last `sep`: everything when there is none. -/
def afterLast (sep : α) (s : List α) : List α :=
  match last sep s with
  | some (_, b) => b
  | none => s

/-- What follows `lead`, or nothing when the list does not start with it. -/
def lead : List α → List α → Option (List α)
  | [], s => some s
  | _ :: _, [] => none
  | p :: ps, x :: xs => if p = x then lead ps xs else none

def trim (p : α → Bool) (s : List α) : List α :=
  (((s.dropWhile p).reverse).dropWhile p).reverse

theorem lead_eq_some_iff {p s r : List α} : lead p s = some r ↔ s = p ++ r := by
  induction p generalizing s with
  | nil => simp [lead]
  | cons a p ih =>
    cases s with
    | nil => simp [lead]
    | cons x xs =>
      by_cases h : a = x
      · simp [lead, h, ih]
      · simp [lead, h, eq_comm]

theorem last_eq_none_iff {sep : α} {s : List α} : last sep s = none ↔ sep ∉ s := by
  induction s with
  | nil => simp [last]
  | cons x xs ih =>
    rw [last]
    cases h : last sep xs with
    | some ab =>
      have hmem : sep ∈ xs := by
        apply Classical.byContradiction
        intro hn
        simp [ih.2 hn] at h
      simp [hmem]
    | none =>
      have hmem := ih.1 h
      by_cases hx : x = sep
      · simp [hx]
      · simp [hx, hmem, Ne.symm hx]

theorem eq_of_last {sep : α} {s a b : List α} (h : last sep s = some (a, b)) :
    s = a ++ sep :: b ∧ sep ∉ b := by
  induction s generalizing a b with
  | nil => simp [last] at h
  | cons x xs ih =>
    rw [last] at h
    cases hr : last sep xs with
    | some ab =>
      obtain ⟨a', b'⟩ := ab
      simp only [hr, Option.some.injEq, Prod.mk.injEq] at h
      obtain ⟨rfl, rfl⟩ := h
      obtain ⟨h1, h2⟩ := ih hr
      exact ⟨by simp [← h1], h2⟩
    | none =>
      simp only [hr] at h
      by_cases hx : x = sep
      · simp only [hx, ↓reduceIte, Option.some.injEq, Prod.mk.injEq] at h
        obtain ⟨rfl, rfl⟩ := h
        exact ⟨by simp [hx], last_eq_none_iff.1 hr⟩
      · simp [hx] at h

theorem last_eq_some_iff {sep : α} {s a b : List α} :
    last sep s = some (a, b) ↔ s = a ++ sep :: b ∧ sep ∉ b := by
  refine ⟨eq_of_last, ?_⟩
  rintro ⟨rfl, absent⟩
  induction a with
  | nil => simp [last, last_eq_none_iff.2 absent]
  | cons x a ih => simp [last, ih]

end Cut

namespace Text

/-- The segments of a text between occurrences of `sep`; there is always at least one. -/
abbrev segments (sep : Char) (s : Text) : List Text := s.splitOn sep

abbrev joinWith (sep : Char) (parts : List Text) : Text := [sep].intercalate parts

def contains (part : Text) : Text → Bool
  | [] => part.isEmpty
  | c :: rest => part.isPrefixOf (c :: rest) || contains part rest

theorem contains_iff {part s : Text} : contains part s = true ↔ part <:+: s := by
  induction s with
  | nil => simp [contains]
  | cons c rest ih =>
    rw [contains, Bool.or_eq_true, ih, List.isPrefixOf_iff_prefix, List.infix_cons_iff]

def ofNat (n : Nat) : Text := Nat.toDigits 10 n

end Text

end Phrasebook
