import Mathlib.Data.List.Forall2
import Phrasebook.Proofs.Resources.Name

/-! Names as lists of segments. A document fits a name exactly when its segments end with those of
the name, once the dots in front of these are dropped. Dots are dropped on one side only; fitting is
transitive all the same, since of two lists of which one ends the other this holds of what is left
without the dots in front (`withoutDots_mono`). -/
namespace Phrasebook.Resource

theorem withoutDots_withoutDots (segments : List Text) :
    withoutDots (withoutDots segments) = withoutDots segments := by
  fun_induction withoutDots segments with
  | case1 next rest ih => exact ih
  | case2 segments undotted => exact withoutDots.eq_2 segments undotted

/-- What segments end with, they still end with when the dots in front of both are dropped. -/
theorem withoutDots_mono {ending segments : List Text} (ends : ending <:+ segments) :
    withoutDots ending <:+ withoutDots segments := by
  fun_induction withoutDots segments with
  | case1 next rest ih =>
      rcases List.suffix_cons_iff.mp ends with rfl | later
      · exact List.suffix_rfl
      · exact ih later
  | case2 segments => exact (withoutDots_suffix ending).trans ends

theorem fits_iff_segments {candidate requested : Text} : Fits candidate requested ↔
    withoutDots (Text.segments '/' (comparable requested)) <:+
      Text.segments '/' (comparable candidate) := by
  rw [← segments_dropDotSlashes]
  exact Cut.splitOn_suffix_iff.symm

theorem Fits.refl (name : Text) : Fits name name := fits_of_comparable_eq rfl

theorem Fits.trans {first second third : Text} (h : Fits first second) (h' : Fits second third) :
    Fits first third := by
  rw [fits_iff_segments] at h h' ⊢
  have undotted := withoutDots_mono h'
  rw [withoutDots_withoutDots] at undotted
  exact undotted.trans h

def Separates (c : Char) : Prop := c = '/' ∨ c = '\\'

/-- The names are written alike, but for slashes in the place of backslashes and the other way. -/
def Respelled (name name' : Text) : Prop :=
  List.Forall₂ (fun c d => c = d ∨ Separates c ∧ Separates d) name name'

theorem normalize_eq_iff {name name' : Text} :
    normalize name = normalize name' ↔ Respelled name name' := by
  have each : ∀ c d : Char, ((if c = '\\' then '/' else c) = if d = '\\' then '/' else d) ↔
      c = d ∨ Separates c ∧ Separates d := by
    intro c d
    grind [Separates]
  rw [normalize, normalize, ← List.forall₂_eq_eq_eq, List.forall₂_map_left_iff,
    List.forall₂_map_right_iff]
  simp only [each, Respelled]

instance (name name' : Text) : Decidable (Respelled name name') :=
  decidable_of_iff _ normalize_eq_iff

theorem Respelled.comparable_eq {name name' : Text} (h : Respelled name name') :
    comparable name = comparable name' := congrArg Text.toLower (normalize_eq_iff.mpr h)

/-- A document fits a name when the segments of the name, normalised and in lower case and without
the dots in front, end those of the document. So every document fits its own name, fitting carries
over from one name to the next, and slashes and backslashes can stand for each other on both
sides. -/
theorem names_fit_by_segments :
    (∀ candidate requested : Text, nameMatches candidate requested = true ↔
      withoutDots (Text.segments '/' (normalize requested).toLower) <:+
        Text.segments '/' (normalize candidate).toLower) ∧
    (∀ name : Text, nameMatches name name = true) ∧
    (∀ first second third : Text, nameMatches first second = true →
      nameMatches second third = true → nameMatches first third = true) ∧
    ∀ candidate candidate' requested requested' : Text, Respelled candidate candidate' →
      Respelled requested requested' →
      nameMatches candidate requested = nameMatches candidate' requested' := by
  refine ⟨fun candidate requested => ?segments, fun name => ?own, ?carried, ?respelled⟩
  case segments => exact nameMatches_iff_fits.trans fits_iff_segments
  case own => exact nameMatches_iff_fits.mpr (Fits.refl name)
  case carried =>
    intro first second third h h'
    rw [nameMatches_iff_fits] at h h' ⊢
    exact h.trans h'
  case respelled =>
    intro candidate candidate' requested requested' same same'
    rw [nameMatches, nameMatches, same.comparable_eq, same'.comparable_eq]

/-- A document asked for in its directory, and then by its file name; the separators exchanged. -/
theorem names_fit_by_segments_dotted :
    nameMatches "app\\I18N/Strings.toml".toList "././i18n\\strings.TOML".toList = true ∧
      nameMatches "././i18n\\strings.TOML".toList "./Strings.toml".toList = true ∧
      nameMatches "app\\I18N/Strings.toml".toList "./Strings.toml".toList = true ∧
      Respelled "app\\I18N/Strings.toml".toList "app/I18N\\Strings.toml".toList ∧
      Respelled "./Strings.toml".toList ".\\Strings.toml".toList ∧
      nameMatches "app/I18N\\Strings.toml".toList ".\\Strings.toml".toList = true := by
  obtain ⟨-, -, carried, respelled⟩ := names_fit_by_segments
  have inDirectory :
      nameMatches "app\\I18N/Strings.toml".toList "././i18n\\strings.TOML".toList = true := by
    decide +kernel
  have byName : nameMatches "././i18n\\strings.TOML".toList "./Strings.toml".toList = true := by
    decide +kernel
  have same : Respelled "app\\I18N/Strings.toml".toList "app/I18N\\Strings.toml".toList := by
    decide +kernel
  have same' : Respelled "./Strings.toml".toList ".\\Strings.toml".toList := by decide +kernel
  have fits := carried _ _ _ inDirectory byName
  exact ⟨inDirectory, byName, fits, same, same', (respelled _ _ _ _ same same').symm.trans fits⟩

/-- A dot is dropped in front of another segment only, and no part of a segment is passed over. -/
example : nameMatches "i18n/.".toList ".".toList = true ∧
    nameMatches "i18n".toList "./".toList = false ∧
    nameMatches "i18n/otherstrings_de.toml".toList "strings_de.toml".toList = false := by
  decide +kernel

end Phrasebook.Resource
