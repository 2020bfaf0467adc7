import Phrasebook.Glob.Pattern

/-! A text without backslashes can be written as a pattern for itself. What is escaped reads as one
token for each character, whatever stands behind it. -/
namespace Phrasebook.Glob

/-- What an escaped character reads as: a class of its own where it would mean something. -/
def escapedToken (c : Char) : Token := if isSpecial c then .class false [(c, c)] else .literal c

theorem isSpecial_iff {c : Char} : isSpecial c = true ↔
    c = '?' ∨ c = '*' ∨ c = '[' ∨ c = ']' ∨ c = '{' ∨ c = '}' := by
  simp only [isSpecial, Bool.or_eq_true, beq_iff_eq, or_assoc]

/-- A class of one special character is closed by the bracket after it, also where the character is
a bracket. -/
theorem classToken_special {c : Char} (special : isSpecial c = true) (rest : Text) :
    classToken (c :: ']' :: rest) = .ok (.class false [(c, c)], rest) := by
  rcases isSpecial_iff.mp special with rfl | rfl | rfl | rfl | rfl | rfl <;> rfl

theorem readTokens_special {c : Char} (special : isSpecial c = true) (fuel : Nat) (st : Stack)
    (previous : Option Char) (rest : Text) :
    readTokens false (fuel + 1) st false previous ('[' :: c :: ']' :: rest) =
      readTokens false fuel (st.push (.class false [(c, c)])) false (some ']') rest := by
  rw [readTokens]
  simp only [classToken_special special, Bool.false_eq_true, if_false]

theorem readTokens_plain {c : Char} (plain : ¬ isSpecial c = true) (unescaped : c ≠ '\\')
    (fuel : Nat) {st : Stack} (outside : st.groups = []) (previous : Option Char) (rest : Text) :
    readTokens false (fuel + 1) st false previous (c :: rest) =
      readTokens false fuel (st.push (.literal c)) false (some c) rest := by
  obtain ⟨noMark, noStar, noBracket, -, noBrace, noClosing⟩ :
      c ≠ '?' ∧ c ≠ '*' ∧ c ≠ '[' ∧ c ≠ ']' ∧ c ≠ '{' ∧ c ≠ '}' := by
    simpa only [isSpecial_iff, not_or] using plain
  by_cases same : c = ','
  · have comma : st.comma = st.push (.literal ',') := by rw [Stack.comma, outside]
    rw [same, readTokens, comma]
  · rw [readTokens] <;> assumption

theorem readTokens_escape {s : Text} (unescaped : '\\' ∉ s) (rest : Text) {fuel : Nat}
    (enough : (escape s ++ rest).length ≤ fuel) {st : Stack} (outside : st.groups = [])
    (previous : Option Char) : ∃ left last, rest.length ≤ left ∧
      readTokens false fuel st false previous (escape s ++ rest) =
        readTokens false left ⟨(s.map escapedToken).reverse ++ st.branch, []⟩ false last rest := by
  induction s generalizing fuel st previous with
  | nil =>
      obtain ⟨branch, groups⟩ := st
      cases outside
      exact ⟨fuel, previous, enough, rfl⟩
  | cons c s ih =>
      obtain ⟨notFirst, others⟩ := List.ne_and_not_mem_of_not_mem_cons unescaped
      have tokens : ((c :: s).map escapedToken).reverse ++ st.branch =
          (s.map escapedToken).reverse ++ (st.push (escapedToken c)).branch := by
        rw [List.map_cons, List.reverse_cons, List.append_assoc]
        rfl
      have pushed : ∀ t, (st.push t).groups = [] := fun _ => outside
      rw [tokens]
      by_cases special : isSpecial c = true
      · have written : escape (c :: s) ++ rest = '[' :: c :: ']' :: (escape s ++ rest) := by
          rw [escape, List.flatMap_cons, if_pos special]
          rfl
        rw [written] at enough ⊢
        obtain ⟨fuel, rfl⟩ := Nat.exists_eq_succ_of_ne_zero (Nat.ne_zero_of_lt enough)
        simp only [List.length_cons] at enough
        have within : (escape s ++ rest).length ≤ fuel := by omega
        rw [readTokens_special special, escapedToken, if_pos special]
        exact ih others within (pushed _) _
      · have written : escape (c :: s) ++ rest = c :: (escape s ++ rest) := by
          rw [escape, List.flatMap_cons, if_neg special]
          rfl
        rw [written] at enough ⊢
        obtain ⟨fuel, rfl⟩ := Nat.exists_eq_succ_of_ne_zero (Nat.ne_zero_of_lt enough)
        simp only [List.length_cons] at enough
        have within : (escape s ++ rest).length ≤ fuel := by omega
        rw [readTokens_plain special (Ne.symm notFirst) fuel outside, escapedToken, if_neg special]
        exact ih others within (pushed _) _

/-- A pattern that goes on behind an escaped text reads as the characters of the text and what
follows, when that reads alike in any place. -/
theorem parse_escape_append {s rest : Text} (unescaped : '\\' ∉ s) {tokens : List Token}
    (follows : ∀ fuel, rest.length ≤ fuel → ∀ branch last,
      readTokens false fuel ⟨branch, []⟩ false last rest = .ok ⟨tokens.reverse ++ branch, []⟩) :
    parse false (escape s ++ rest) = .ok (s.map escapedToken ++ tokens) := by
  obtain ⟨left, last, enough, read⟩ :=
    readTokens_escape unescaped rest (Nat.le_refl _) (rfl : (⟨[], []⟩ : Stack).groups = []) none
  rw [parse, read, follows left enough, List.append_nil]
  change Except.ok (List.reverse _) = _
  rw [List.reverse_append, List.reverse_reverse, List.reverse_reverse]

/-- The pattern for everything below a directory reads as the characters of the directory. -/
theorem parse_escape_below {dir : Text} (unescaped : '\\' ∉ dir) :
    parse false (escape dir ++ "/**".toList) =
      .ok (dir.map escapedToken ++ [.everythingBelow]) := by
  apply parse_escape_append unescaped
  intro fuel enough branch last
  obtain ⟨fuel, rfl⟩ := Nat.exists_eq_add_of_le' enough
  change readTokens false (fuel + 2 + 1) ⟨branch, []⟩ false last ['/', '*', '*'] = _
  rw [readTokens_plain (by decide) (by decide) _ rfl]
  cases fuel <;> rfl

/-- The pattern for what goes on behind a base name and an underscore reads as the characters of
the name. -/
theorem parse_escape_behind {base : Text} (unescaped : '\\' ∉ base) :
    parse false (escape base ++ "_*".toList) =
      .ok (base.map escapedToken ++ [.literal '_', .run]) := by
  apply parse_escape_append unescaped
  intro fuel enough branch last
  obtain ⟨fuel, rfl⟩ := Nat.exists_eq_add_of_le' enough
  change readTokens false (fuel + 1 + 1) ⟨branch, []⟩ false last ['_', '*'] = _
  rw [readTokens_plain (by decide) (by decide) _ rfl]
  cases fuel <;> rfl

end Phrasebook.Glob
