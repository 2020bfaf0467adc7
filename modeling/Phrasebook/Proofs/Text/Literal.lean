import Mathlib.Tactic.SplitIfs
import Phrasebook.Text.Quoted

/-! A literal that is written can be read back: the reader takes exactly the text that was quoted
and leaves what follows. Whatever the text is, its literal shows only printable characters, and
inside it no quote stands without a backslash before it. -/
namespace Phrasebook.Text

theorem hexDigits_of_lt {n : Nat} (small : n < 16) : hexDigits n = [Nat.digitChar n] :=
  Nat.toDigits_of_lt_base small

theorem hexDigits_of_le {n : Nat} (large : 16 ≤ n) :
    hexDigits n = hexDigits (n / 16) ++ [Nat.digitChar (n % 16)] :=
  Nat.toDigits_of_base_le (by decide) large

theorem hexDigit?_digitChar : ∀ n < 16, hexDigit? (Nat.digitChar n) = some n := by decide

theorem mem_hexDigits {n : Nat} {c : Char} (h : c ∈ hexDigits n) :
    ∃ d < 16, c = Nat.digitChar d := by
  induction n using Nat.strongRecOn with
  | ind n ih =>
      by_cases small : n < 16
      · rw [hexDigits_of_lt small, List.mem_singleton] at h
        exact ⟨n, small, h⟩
      · rw [hexDigits_of_le (Nat.le_of_not_lt small), List.mem_append, List.mem_singleton] at h
        rcases h with before | last
        · exact ih _ (Nat.div_lt_self (by omega) (by decide)) before
        · exact ⟨n % 16, Nat.mod_lt _ (by decide), last⟩

theorem scalar?_toNat (c : Char) : scalar? c.toNat = some c := by
  exact dif_pos c.valid

theorem readDigit {n d : Nat} (small : d < 16) (rest : Text) :
    readLiteralBody (.digits n) (Nat.digitChar d :: rest) =
      readLiteralBody (.digits (n * 16 + d)) rest := by
  have inside : ∀ d < 16, Nat.digitChar d ≠ '\x7d' := by decide
  rw [readLiteralBody, if_neg (inside d small), hexDigit?_digitChar d small]
  rfl

/-- The digits of a number give the number, from which the reader goes on. -/
theorem readDigits (n : Nat) (rest : Text) :
    readLiteralBody (.digits 0) (hexDigits n ++ rest) = readLiteralBody (.digits n) rest := by
  induction n using Nat.strongRecOn generalizing rest with
  | ind n ih =>
      by_cases small : n < 16
      · rw [hexDigits_of_lt small]
        refine (readDigit small rest).trans ?_
        rw [Nat.zero_mul, Nat.zero_add]
      · rw [hexDigits_of_le (Nat.le_of_not_lt small), List.append_assoc,
          ih _ (Nat.div_lt_self (by omega) (by decide)), List.singleton_append,
          readDigit (Nat.mod_lt _ (by decide)), Nat.div_add_mod']

theorem readQuotedChar (c : Char) (rest : Text) :
    readLiteralBody .plain (quoteChar c ++ rest) =
      (readLiteralBody .plain rest).map fun (s, left) => (c :: s, left) := by
  rw [quoteChar]
  split_ifs with h0 ht hr hn hq hb shown
  · rw [h0]; rfl
  · rw [ht]; rfl
  · rw [hr]; rfl
  · rw [hn]; rfl
  · rw [hq]; rfl
  · rw [hb]; rfl
  · rw [List.singleton_append, readLiteralBody, if_neg hq, if_neg hb]
  · change readLiteralBody (.digits 0) (hexDigits c.toNat ++ _ ++ rest) = _
    rw [List.append_assoc, readDigits]
    change (scalar? c.toNat).bind _ = _
    rw [scalar?_toNat]
    rfl

theorem readLiteralBody_quoteBody (s rest : Text) :
    readLiteralBody .plain (quoteBody s ++ '"' :: rest) = some (s, rest) := by
  induction s with
  | nil => rfl
  | cons c s ih =>
      rw [quoteBody, List.flatMap_cons, List.append_assoc, readQuotedChar]
      rw [quoteBody] at ih
      rw [ih]
      rfl

theorem readLiteral_quoted (s rest : Text) : readLiteral (quoted s ++ rest) = some (s, rest) := by
  have : quoted s ++ rest = '"' :: (quoteBody s ++ '"' :: rest) := by simp [quoted]
  rw [this]
  exact readLiteralBody_quoteBody s rest

/-- Only characters that can be shown stand in a literal; so it takes one line. -/
theorem isPrintable_of_mem_quoteChar {c d : Char} (h : d ∈ quoteChar c) : isPrintable d = true := by
  have digits : ∀ n < 16, isPrintable (Nat.digitChar n) = true := by decide
  have mark : ∀ {marks : Text}, marks.all isPrintable = true → d ∈ marks → isPrintable d = true :=
    fun all there => List.all_eq_true.mp all d there
  rw [quoteChar] at h
  split_ifs at h with h0 ht hr hn hq hb shown
  iterate 6 exact mark (by decide) h
  · exact List.mem_singleton.mp h ▸ shown
  · rw [List.append_assoc, List.mem_append, List.mem_append] at h
    rcases h with lead | number | close
    · exact mark (by decide) lead
    · obtain ⟨n, small, rfl⟩ := mem_hexDigits number
      exact digits n small
    · exact mark (by decide) close

theorem newline_not_mem_quoted (s : Text) : '\n' ∉ quoted s := by
  intro h
  have hidden : isPrintable '\n' = false := by decide
  rw [quoted, List.cons_append, List.mem_cons, List.mem_append, List.mem_singleton] at h
  rcases h with front | body | back
  · cases front
  · obtain ⟨c, -, hc⟩ := List.mem_flatMap.mp body
    rw [isPrintable_of_mem_quoteChar hc] at hidden
    cases hidden
  · cases back

/-- Characters at which a line may end. -/
def lineBreaks : Text := ['\n', '\r', '\u000b', '\u000c', '\u0085', '\u2028', '\u2029']

/-- The inside of a literal. A backslash takes the character after it along, only so may it be a
quote, and nothing breaks the line. -/
inductive Enclosed : Text → Prop where
  | nil : Enclosed []
  | plain {c : Char} {rest : Text} (notQuote : c ≠ '"') (notBackslash : c ≠ '\\')
    (inLine : c ∉ lineBreaks) (further : Enclosed rest) : Enclosed (c :: rest)
  | escape {c : Char} {rest : Text} (inLine : c ∉ lineBreaks) (further : Enclosed rest) :
    Enclosed ('\\' :: c :: rest)

theorem not_mem_lineBreaks {c : Char} (shown : isPrintable c = true) : c ∉ lineBreaks := by
  intro there
  have hidden : lineBreaks.all (fun b => !isPrintable b) = true := by decide +kernel
  have dark := List.all_eq_true.mp hidden c there
  rw [shown] at dark
  cases dark

theorem Enclosed.append_plain {marks rest : Text}
    (plain : ∀ c ∈ marks, c ≠ '"' ∧ c ≠ '\\' ∧ c ∉ lineBreaks) (h : Enclosed rest) :
    Enclosed (marks ++ rest) := by
  induction marks with
  | nil => exact h
  | cons c marks ih =>
      obtain ⟨⟨notQuote, notBackslash, inLine⟩, others⟩ := List.forall_mem_cons.mp plain
      exact .plain notQuote notBackslash inLine (ih others)

theorem Enclosed.quoteChar (c : Char) {rest : Text} (h : Enclosed rest) :
    Enclosed (Text.quoteChar c ++ rest) := by
  rw [Text.quoteChar]
  split_ifs with h0 ht hr hn hq hb shown
  iterate 6 exact .escape (by decide) h
  · exact .plain hq hb (not_mem_lineBreaks shown) h
  · have digits : ∀ n < 16, Nat.digitChar n ≠ '"' ∧ Nat.digitChar n ≠ '\\' ∧
        Nat.digitChar n ∉ lineBreaks := by decide
    refine .escape (by decide) ?_
    have marks : ∀ d ∈ '\x7b' :: hexDigits c.toNat ++ ['\x7d'],
        d ≠ '"' ∧ d ≠ '\\' ∧ d ∉ lineBreaks := by
      intro d there
      rw [List.cons_append, List.mem_cons, List.mem_append, List.mem_singleton] at there
      rcases there with rfl | number | rfl
      · decide
      · obtain ⟨n, small, rfl⟩ := mem_hexDigits number
        exact digits n small
      · decide
    exact .append_plain marks h

theorem enclosed_quoteBody (s : Text) : Enclosed (quoteBody s) := by
  induction s with
  | nil => exact .nil
  | cons c s ih =>
      rw [quoteBody, List.flatMap_cons]
      exact .quoteChar c ih

end Phrasebook.Text
