import Phrasebook.Accessors.Source
import Phrasebook.Proofs.Glob.Matching
import Phrasebook.Proofs.Locale.Spelling
import Phrasebook.Proofs.Lookup.Discovery
import Phrasebook.Proofs.Resources.Sibling

/-! Siblings are discovered. What is named as the sibling of a document for a locale is listed among
the variants of the stem of the document, whatever signs and letters that has, and the locale is
read back from its name. -/
namespace Phrasebook

open Accessors (Descriptor)
open Resource

namespace Resource

/-- A file name with something before its last dot, or without a dot. -/
inductive Stemmed : Text → Prop
  | extended {stem extension : Text} (named : stem ≠ []) (oneExtension : '.' ∉ extension) :
      Stemmed (stem ++ '.' :: extension)
  | plain {name : Text} (noDot : '.' ∉ name) : Stemmed name

/-- Up to its last dot, or whole when it has none, a sibling's file name is the stem with the
suffix. -/
theorem Stemmed.siblingFileName_cut {fileName suffix : Text} (stemmed : Stemmed fileName)
    (inset : Inset suffix) :
    ((Cut.last '.' (siblingFileName fileName suffix)).map (·.1)).getD
      (siblingFileName fileName suffix) = stem fileName ++ '_' :: suffix := by
  cases stemmed with
  | extended named oneExtension =>
      rw [siblingFileName_spelled named oneExtension, stem,
        stemAndExtension_extended named oneExtension, Cut.last_eq_some_iff.mpr ⟨rfl, oneExtension⟩]
      rfl
  | plain noDot =>
      have noDotBehind : '.' ∉ fileName ++ '_' :: suffix := by
        intro there
        rcases List.mem_append.mp there with inside | behind
        · exact noDot inside
        · exact inset.noDot ((List.mem_cons.mp behind).resolve_left (by decide))
      rw [siblingFileName_plain noDot, stem, stemAndExtension_plain noDot,
        Cut.last_eq_none_iff.mpr noDotBehind]
      rfl

end Resource

namespace Variants

theorem pattern_eq {base : Text} (unescaped : '\\' ∉ base) :
    pattern base = .ok (base.map Glob.escapedToken ++ [.literal '_', .run]) := by
  rw [pattern, patternText, Glob.parse_escape_behind unescaped]

/-- An embedded document is listed whose file name goes on behind the base name and an
underscore. -/
theorem mem_list {e : Embedded} {base name rest : Text} (unescaped : '\\' ∉ base)
    (listed : name ∈ e.names) (behind : fileName name = base ++ '_' :: rest) (oneName : '/' ∉ rest)
    (files : FileSystem) (dir : Option Path) :
    ∃ names, list e files dir base = .ok names ∧ name ∈ names := by
  rw [list, pattern_eq unescaped]
  refine ⟨_, rfl, List.mem_append_left _ ?_⟩
  rw [Text.sorted, (Sorting.sort_perm _ _).mem_iff, List.mem_filter, behind]
  exact ⟨listed, Glob.isMatch_behind options base oneName⟩

/-- The locale of a file name that is the base name, an underscore and the name of the locale, up to
the last dot. -/
theorem locale?_of_cut {base name : Text} {l : Locale} (canonical : l.Canonical)
    (cut : ((Cut.last '.' (fileName name)).map (·.1)).getD (fileName name) =
      base ++ '_' :: l.name) :
    locale? base name = some l := by
  have suffix : suffix? base name = some (Text.toLower l.name) := by
    rw [suffix?, cut, Text.toLower_boundary Text.boundary_underscore, Cut.lead_eq_some_iff,
      List.append_assoc, List.singleton_append]
  have lowered : Text.toLower l.name = Locale.lower l.name :=
    Text.lowerAfter_of_ascii canonical.written.ascii_name []
  rw [locale?_eq, suffix, lowered, Option.bind_some, canonical.parse_lower_name]
  rfl

/-- The sibling of a document for a locale is listed among the variants of the document's stem by
every embedded set that has it, and the locale is what its name is read as. -/
theorem sibling_discovered {d : Descriptor} (separated : '\\' ∉ d.relativePath)
    (stemmed : Stemmed (Cut.afterLast '/' d.relativePath)) {l : Locale} (canonical : l.Canonical) :
    (∀ (e : Embedded) (files : FileSystem) (dir : Option Path),
      siblingName d.relativePath l.name ∈ e.names →
        ∃ names, list e files dir d.stem = .ok names ∧ siblingName d.relativePath l.name ∈ names) ∧
    locales [siblingName d.relativePath l.name] d.stem = [l] := by
  have inset := inset_name canonical.written
  obtain ⟨place, file, filed⟩ := exists_filed d.relativePath
  obtain ⟨place', sibling⟩ := filed.sibling inset
  have own : Cut.afterLast '/' d.relativePath = file := by
    rw [← fileName_of_filed filed, fileName, normalize_of_not_mem separated]
  have siblingFile := fileName_of_filed sibling
  rw [own] at stemmed
  rw [Descriptor.stem, own]
  refine ⟨fun e files dir listed => ?listed, ?read⟩
  case listed =>
    obtain ⟨ending, -, siblingOf⟩ := exists_ending file
    have behind := siblingOf l.name
    have clear := backslash_not_mem_normalize (siblingName d.relativePath l.name)
    have oneName := sibling.oneName
    rw [sibling.spelled, behind, List.mem_append, List.mem_append, not_or, not_or] at clear
    rw [behind, List.mem_append, List.mem_cons, not_or, not_or] at oneName
    exact mem_list clear.2.1 listed (siblingFile.trans behind) oneName.2.2 files dir
  case read =>
    have found : locale? (stem file) (siblingName d.relativePath l.name) = some l := by
      apply locale?_of_cut canonical
      rw [siblingFile]
      exact stemmed.siblingFileName_cut inset
    rw [locales, List.filterMap_cons_some found]
    rfl

/-- A document with signs of patterns, an underscore, a dot and a last sigma in its stem. -/
def streets : Descriptor where
  relativePath := "i18n/ΟΔΟΣ_[1].old.toml".toList
  names := ⟨"Streets".toList, "App".toList⟩
  tree := .root

/-- The document and its Austrian sibling. -/
def streetNames : Embedded :=
  ⟨[("i18n/ΟΔΟΣ_[1].old.toml".toList, []), ("i18n\\ΟΔΟΣ_[1].old_de-AT.toml".toList, [])]⟩

theorem sibling_discovered_streets :
    '\\' ∉ streets.relativePath ∧ Stemmed (Cut.afterLast '/' streets.relativePath) ∧
      alpine.Canonical ∧ streets.stem = "ΟΔΟΣ_[1].old".toList ∧
      siblingName streets.relativePath alpine.name = "i18n/ΟΔΟΣ_[1].old_de-AT.toml".toList ∧
      siblingName streets.relativePath alpine.name ∈ streetNames.names ∧
      (∃ names, list streetNames .empty none streets.stem = .ok names ∧
        siblingName streets.relativePath alpine.name ∈ names) ∧
      locales [siblingName streets.relativePath alpine.name] streets.stem = [alpine] := by
  have separated : '\\' ∉ streets.relativePath := by decide +kernel
  have stemmed : Stemmed (Cut.afterLast '/' streets.relativePath) := by
    have cut : Cut.afterLast '/' streets.relativePath =
        "ΟΔΟΣ_[1].old".toList ++ '.' :: "toml".toList := by decide +kernel
    rw [cut]
    exact .extended (by decide) (by decide)
  have canonical : alpine.Canonical :=
    Locale.canonical_of_parse (show Locale.parse "de-AT".toList = .ok alpine by rfl)
  have listed : siblingName streets.relativePath alpine.name ∈ streetNames.names := by
    decide +kernel
  obtain ⟨found, read⟩ := sibling_discovered separated stemmed canonical
  exact ⟨separated, stemmed, canonical, by decide +kernel, by decide +kernel, listed,
    found streetNames .empty none listed, read⟩

end Variants

end Phrasebook
