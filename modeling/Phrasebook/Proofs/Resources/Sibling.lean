import Phrasebook.Proofs.Locale.Canonical
import Phrasebook.Proofs.Resources.Name

/-! The names of siblings. A sibling's name tells the document and the suffix that it is made of, as
long as the suffix has no dot, slash or underscore, whatever the shape of the file name; so two
families have no sibling name in common, and no sibling has the name of its document. -/
namespace Phrasebook.Resource

/-- A file name has a stem and an extension, or no dot, or one dot and that at the front. -/
inductive Shape : Text → Prop
  | extended {stem extension : Text} (named : stem ≠ []) (oneExtension : '.' ∉ extension) :
      Shape (stem ++ '.' :: extension)
  | plain {name : Text} (noDot : '.' ∉ name) : Shape name
  | hidden {name : Text} (noDot : '.' ∉ name) : Shape ('.' :: name)

theorem shape (fileName : Text) : Shape fileName := by
  cases cut : Cut.last '.' fileName with
  | none => exact .plain (Cut.last_eq_none_iff.mp cut)
  | some parts =>
      obtain ⟨stem, extension⟩ := parts
      obtain ⟨rfl, oneExtension⟩ := Cut.eq_of_last cut
      by_cases named : stem = []
      · rw [named]
        exact .hidden oneExtension
      · exact .extended named oneExtension

theorem stemAndExtension_plain {name : Text} (noDot : '.' ∉ name) :
    stemAndExtension name = (name, none) := by
  rw [stemAndExtension, Cut.last_eq_none_iff.mpr noDot]

theorem stemAndExtension_hidden {name : Text} (noDot : '.' ∉ name) :
    stemAndExtension ('.' :: name) = ('.' :: name, none) := by
  rw [stemAndExtension, Cut.last_eq_some_iff.mpr ⟨(List.nil_append _).symm, noDot⟩]
  rfl

theorem siblingFileName_plain {name : Text} (noDot : '.' ∉ name) (suffix : Text) :
    siblingFileName name suffix = name ++ '_' :: suffix := by
  rw [siblingFileName, stemAndExtension_plain noDot]

theorem siblingFileName_hidden {name : Text} (noDot : '.' ∉ name) (suffix : Text) :
    siblingFileName ('.' :: name) suffix = '.' :: (name ++ '_' :: suffix) := by
  rw [siblingFileName, stemAndExtension_hidden noDot]
  rfl

/-- What may be put between a stem and an extension, and be found there again. -/
structure Inset (suffix : Text) : Prop where
  noDot : '.' ∉ suffix
  noSlash : '/' ∉ suffix
  noBackslash : '\\' ∉ suffix
  noUnderscore : '_' ∉ suffix

theorem inset_name {l : Locale} (written : l.Written) : Inset l.name := by
  have absent : ∀ c : Char, c.isAlphanum = false → c ≠ '-' → c ∉ l.name := by
    intro c other notHyphen there
    rcases written.name c there with letter | hyphen
    · rw [letter] at other
      cases other
    · exact notHyphen hyphen
  exact ⟨absent '.' (by decide) (by decide), absent '/' (by decide) (by decide),
    absent '\\' (by decide) (by decide), absent '_' (by decide) (by decide)⟩

/-- The file name and the suffix of which a sibling's file name is made. -/
def siblingParts? (sibling : Text) : Option (Text × Text) :=
  match stemAndExtension sibling with
  | (stem, some extension) =>
    (Cut.last '_' stem).map fun (stem, suffix) => (stem ++ '.' :: extension, suffix)
  | (stem, none) => Cut.last '_' stem

theorem siblingParts?_siblingFileName (fileName : Text) {suffix : Text} (inset : Inset suffix) :
    siblingParts? (siblingFileName fileName suffix) = some (fileName, suffix) := by
  have cut : ∀ stem, Cut.last '_' (stem ++ '_' :: suffix) = some (stem, suffix) := fun stem =>
    Cut.last_eq_some_iff.mpr ⟨rfl, inset.noUnderscore⟩
  have noDotBehind : ∀ name, '.' ∉ name → '.' ∉ name ++ '_' :: suffix := by
    intro name noDot there
    rcases List.mem_append.mp there with inside | behind
    · exact noDot inside
    · exact inset.noDot ((List.mem_cons.mp behind).resolve_left (by decide))
  cases shape fileName with
  | @extended stem extension named oneExtension =>
      have named' : stem ++ '_' :: suffix ≠ [] := by simp
      rw [siblingFileName_spelled named oneExtension, siblingParts?,
        stemAndExtension_extended named' oneExtension]
      dsimp only
      rw [cut]
      rfl
  | plain noDot =>
      rw [siblingFileName_plain noDot, siblingParts?, stemAndExtension_plain (noDotBehind _ noDot)]
      exact cut _
  | @hidden name noDot =>
      rw [siblingFileName_hidden noDot, siblingParts?,
        stemAndExtension_hidden (noDotBehind _ noDot)]
      exact cut ('.' :: name)

/-- A file name is its stem and an ending, before which a sibling has the suffix. -/
theorem exists_ending (fileName : Text) : ∃ ending, fileName = stem fileName ++ ending ∧
    ∀ suffix, siblingFileName fileName suffix = stem fileName ++ '_' :: (suffix ++ ending) := by
  cases shape fileName with
  | @extended stem extension named oneExtension =>
      rw [Resource.stem, stemAndExtension_extended named oneExtension]
      refine ⟨'.' :: extension, rfl, fun suffix => ?_⟩
      rw [siblingFileName_spelled named oneExtension, List.append_assoc, List.cons_append]
  | plain noDot =>
      rw [stem, stemAndExtension_plain noDot]
      refine ⟨[], (List.append_nil _).symm, fun suffix => ?_⟩
      rw [siblingFileName_plain noDot, List.append_nil]
  | hidden noDot =>
      rw [stem, stemAndExtension_hidden noDot]
      refine ⟨[], (List.append_nil _).symm, fun suffix => ?_⟩
      rw [siblingFileName_hidden noDot, List.append_nil, List.cons_append]

theorem length_siblingFileName (fileName suffix : Text) :
    (siblingFileName fileName suffix).length = fileName.length + suffix.length + 1 := by
  obtain ⟨ending, spelled, sibling⟩ := exists_ending fileName
  have length := congrArg List.length spelled
  rw [List.length_append] at length
  rw [sibling, List.length_append, List.length_cons, List.length_append]
  omega

theorem mem_of_mem_siblingFileName {c : Char} {fileName suffix : Text}
    (h : c ∈ siblingFileName fileName suffix) : c ∈ fileName ∨ c = '_' ∨ c ∈ suffix := by
  obtain ⟨ending, spelled, sibling⟩ := exists_ending fileName
  rw [sibling, List.mem_append, List.mem_cons, List.mem_append] at h
  rw [spelled, List.mem_append]
  tauto

theorem oneName_sibling {fileName suffix : Text} (oneName : '/' ∉ fileName) (inset : Inset suffix) :
    '/' ∉ siblingFileName fileName suffix := by
  intro there
  rcases mem_of_mem_siblingFileName there with inName | impossible | inSuffix
  · exact oneName inName
  · cases impossible
  · exact inset.noSlash inSuffix

theorem exists_filed (name : Text) : ∃ place fileName, Filed name place fileName := by
  cases cut : Cut.last '/' (normalize name) with
  | none => exact ⟨[], normalize name, rfl, .inl rfl, Cut.last_eq_none_iff.mp cut⟩
  | some parts =>
      obtain ⟨directory, fileName⟩ := parts
      obtain ⟨spelled, oneName⟩ := Cut.eq_of_last cut
      refine ⟨directory ++ ['/'], fileName, ?_, .inr ⟨directory, rfl⟩, oneName⟩
      rw [spelled, List.append_assoc, List.singleton_append]

theorem filed_unique {place place' fileName fileName' : Text}
    (within : place = [] ∨ ∃ directory, place = directory ++ ['/'])
    (within' : place' = [] ∨ ∃ directory, place' = directory ++ ['/'])
    (oneName : '/' ∉ fileName) (oneName' : '/' ∉ fileName')
    (same : place ++ fileName = place' ++ fileName') : place = place' ∧ fileName = fileName' := by
  rcases within with rfl | ⟨directory, rfl⟩ <;> rcases within' with rfl | ⟨directory', rfl⟩
  · exact ⟨rfl, same⟩
  · rw [List.nil_append] at same
    exact (oneName (by simp [same])).elim
  · rw [List.nil_append] at same
    exact (oneName' (by simp [← same])).elim
  · rw [List.append_assoc, List.append_assoc] at same
    have cut := (Cut.last_eq_some_iff.mpr ⟨rfl, oneName⟩).symm.trans
      (Cut.last_eq_some_iff.mpr ⟨same, oneName'⟩)
    rw [Option.some.injEq, Prod.mk.injEq] at cut
    exact ⟨congrArg (· ++ ['/']) cut.1, cut.2⟩

theorem Filed.sibling {name place fileName suffix : Text} (filed : Filed name place fileName)
    (inset : Inset suffix) : ∃ place', Filed (siblingName name suffix) place'
      (siblingFileName fileName suffix) := by
  refine ⟨if place = ['/'] then [] else place, ?_, ?_, oneName_sibling filed.oneName inset⟩
  · have absent := backslash_not_mem_normalize name
    rw [filed.spelled, List.mem_append, not_or] at absent
    rw [filed.siblingName_eq]
    apply normalize_of_not_mem
    intro there
    rcases List.mem_append.mp there with inPlace | inName
    · split at inPlace
      · cases inPlace
      · exact absent.1 inPlace
    · rcases mem_of_mem_siblingFileName inName with inName | impossible | inSuffix
      · exact absent.2 inName
      · cases impossible
      · exact inset.noBackslash inSuffix
  · split
    · exact .inl rfl
    · exact filed.within

/-- Siblings of different documents, or for different locales, have different names; a name that
starts with a slash is not told from the one without. No sibling is named as its document. -/
theorem sibling_names_apart :
    (∀ (file file' : Text) (l l' : Locale), l.Canonical → l'.Canonical →
      (normalize file).head? ≠ some '/' → (normalize file').head? ≠ some '/' →
      siblingName file l.name = siblingName file' l'.name →
      normalize file = normalize file' ∧ l = l') ∧
    ∀ (file : Text) (l : Locale), l.Canonical → siblingName file l.name ≠ normalize file := by
  refine ⟨?apart, ?own⟩
  case apart =>
    intro file file' l l' canonical canonical' relative relative' same
    obtain ⟨place, fileName, filed⟩ := exists_filed file
    obtain ⟨place', fileName', filed'⟩ := exists_filed file'
    have inset := inset_name canonical.written
    have inset' := inset_name canonical'.written
    have notTop : ∀ {name place fileName : Text}, Filed name place fileName →
        (normalize name).head? ≠ some '/' → place ≠ ['/'] := by
      rintro name place fileName filed relative rfl
      exact relative (by rw [filed.spelled]; rfl)
    rw [filed.siblingName_eq, filed'.siblingName_eq, if_neg (notTop filed relative),
      if_neg (notTop filed' relative')] at same
    obtain ⟨samePlace, sameSibling⟩ := filed_unique filed.within filed'.within
      (oneName_sibling filed.oneName inset) (oneName_sibling filed'.oneName inset') same
    -- Both are taken apart into the same file name and the same suffix.
    have parts := siblingParts?_siblingFileName fileName inset
    rw [sameSibling, siblingParts?_siblingFileName fileName' inset', Option.some.injEq,
      Prod.mk.injEq] at parts
    refine ⟨?_, canonical.name_injective canonical' parts.2.symm⟩
    rw [filed.spelled, filed'.spelled, samePlace, parts.1]
  case own =>
    intro file l canonical same
    obtain ⟨place, fileName, filed⟩ := exists_filed file
    have named : l.name ≠ [] := fun empty => by
      have read := canonical.parse_name
      rw [empty] at read
      cases read
    have length := congrArg List.length same
    have longer := List.length_pos_iff.mpr named
    rw [filed.siblingName_eq, filed.spelled, List.length_append, List.length_append,
      length_siblingFileName] at length
    split at length
    · rename_i top
      rw [top] at length
      simp only [List.length_nil, List.length_singleton] at length
      omega
    · omega

def alpine : Locale := ⟨"de".toList, none, some "AT".toList, []⟩

/-- One document in two spellings, with an underscore and dots in its name. -/
theorem sibling_names_apart_spelled :
    alpine.Canonical ∧ (normalize "i18n\\.old_de.strings".toList).head? ≠ some '/' ∧
      (normalize "i18n/.old_de.strings".toList).head? ≠ some '/' ∧
      siblingName "i18n\\.old_de.strings".toList alpine.name = "i18n/.old_de_de-AT.strings".toList ∧
      siblingName "i18n/.old_de.strings".toList alpine.name = "i18n/.old_de_de-AT.strings".toList ∧
      normalize "i18n\\.old_de.strings".toList = normalize "i18n/.old_de.strings".toList ∧
      "i18n/.old_de_de-AT.strings".toList ≠ normalize "i18n/.old_de.strings".toList := by
  have canonical : alpine.Canonical :=
    Locale.canonical_of_parse (show Locale.parse "de-AT".toList = .ok alpine by rfl)
  have first : siblingName "i18n\\.old_de.strings".toList alpine.name =
      "i18n/.old_de_de-AT.strings".toList := by decide +kernel
  have second : siblingName "i18n/.old_de.strings".toList alpine.name =
      "i18n/.old_de_de-AT.strings".toList := by decide +kernel
  obtain ⟨apart, own⟩ := sibling_names_apart
  obtain ⟨same, -⟩ := apart _ _ _ _ canonical canonical (by decide) (by decide)
    (first.trans second.symm)
  exact ⟨canonical, by decide, by decide, first, second, same,
    second ▸ own "i18n/.old_de.strings".toList alpine canonical⟩

end Phrasebook.Resource
