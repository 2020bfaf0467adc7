import Mathlib.Data.List.Basic
import Phrasebook.Locale.Identifier
import Phrasebook.Proofs.Text.Lower
import Phrasebook.Proofs.Text.Segments

/-! What the name of a locale is written with: ASCII letters and digits, and hyphens between
subtags. -/
namespace Phrasebook.Locale

/-- A text of ASCII letters and digits. -/
def Plain (s : Text) : Prop := ∀ c ∈ s, c.isAlphanum = true

/-- All subtags are letters and digits. -/
def Written (l : Locale) : Prop := ∀ tag ∈ l.subtags, Plain tag

theorem ascii_of_isAlphanum {c : Char} (h : c.isAlphanum = true) : c.toNat < 0x80 := by
  rcases Bool.or_eq_true_iff.mp h with letter | digit
  · have between := Text.ascii_of_isAlpha letter
    omega
  · obtain ⟨-, below⟩ := Char.isDigit_iff_toNat.mp digit
    exact Nat.lt_of_le_of_lt below (by decide)

theorem isAlphanum_toLower {c : Char} (h : c.isAlphanum = true) : c.toLower.isAlphanum = true :=
  Text.ascii_forall (P := fun c => c.isAlphanum = true → c.toLower.isAlphanum = true)
    (by decide +kernel) (ascii_of_isAlphanum h) h

theorem isAlphanum_of_isAlpha (c : Char) (h : c.isAlpha = true) : c.isAlphanum = true := by
  rw [Char.isAlphanum, h, Bool.true_or]

theorem isAlphanum_of_isDigit (c : Char) (h : c.isDigit = true) : c.isAlphanum = true := by
  rw [Char.isAlphanum, h, Bool.or_true]

theorem written_iff {l : Locale} : l.Written ↔ Plain l.language ∧ (∀ s ∈ l.script, Plain s) ∧
    (∀ r ∈ l.region, Plain r) ∧ ∀ v ∈ l.variants, Plain v := by
  simp only [Written, subtags, List.forall_mem_cons, List.forall_mem_append, Option.mem_toList,
    and_assoc, Option.mem_def]

/-- The name of a locale consists of ASCII letters and digits and hyphens. -/
theorem Written.name {l : Locale} (written : l.Written) :
    ∀ c ∈ l.name, c.isAlphanum = true ∨ c = '-' := by
  intro c hc
  rcases Text.mem_joinWith hc with hyphen | ⟨tag, there, inside⟩
  · exact .inr hyphen
  · exact .inl (written tag there c inside)

theorem Written.ascii_name {l : Locale} (written : l.Written) : ∀ c ∈ l.name, c.toNat < 0x80 := by
  intro c hc
  rcases written.name c hc with letter | rfl
  · exact ascii_of_isAlphanum letter
  · decide

end Phrasebook.Locale
