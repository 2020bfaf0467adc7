import Mathlib.Data.List.Basic
import Phrasebook.Locale.Identifier

/-! The name of a locale begins with its language, and is no more than it only for a bare one. -/
namespace Phrasebook.Locale

theorem name_eq_language_iff (l : Locale) :
    l.name = l.language ↔ (⟨l.language, none, none, []⟩ : Locale) = l := by
  obtain ⟨language, script, region, variants⟩ := l
  constructor
  · intro same
    have rest : script.toList ++ region.toList ++ variants = [] := by
      refine Classical.byContradiction fun more => ?_
      have longer := congrArg List.length same
      rw [name, subtags, Text.joinWith, List.intercalate_cons_of_ne_nil more] at longer
      simp only [List.length_append, List.length_singleton] at longer
      omega
    simp only [List.append_eq_nil_iff, Option.toList_eq_nil_iff] at rest
    obtain ⟨⟨rfl, rfl⟩, rfl⟩ := rest
    rfl
  · intro bare
    cases bare
    exact List.intercalate_singleton

/-- The bare language is asked for where there is one and it is not the whole name. -/
theorem languageOnly_eq (l : Locale) :
    l.languageOnly = if l.language ≠ undetermined ∧ l.language ≠ l.name then
      some ⟨l.language, none, none, []⟩ else none := by
  rw [languageOnly]
  by_cases und : l.language = undetermined
  · rw [if_pos und]
    exact (if_neg fun h => h.1 und).symm
  · rw [if_neg und]
    by_cases same : l.language = l.name
    · have bare := (name_eq_language_iff l).mp same.symm
      exact (if_pos bare).trans (if_neg fun h => h.2 same).symm
    · have notBare := fun bare => same ((name_eq_language_iff l).mpr bare).symm
      exact (if_neg notBare).trans (if_pos ⟨und, same⟩).symm

theorem name_bare (language : Text) : (⟨language, none, none, []⟩ : Locale).name = language :=
  List.intercalate_singleton

end Phrasebook.Locale
