import Phrasebook.Proofs.Locale.Canonical
import Phrasebook.Proofs.Lookup.Origin
import Phrasebook.Variants

/-! What discovery reports can be looked up. A variant is found by reading a locale from its name,
and is asked for by the name of that locale; the two meet where the variant carries this name up to
case, and where the locale is not the invariant one, which has no documents of its own. -/
namespace Phrasebook

open Resource

namespace Variants

/-- What of a name is read as a locale, in lower case: it follows the base name and an underscore,
and ends at the last dot. -/
def suffix? (base name : Text) : Option Text :=
  let file := fileName name
  let stem := ((Cut.last '.' file).map (·.1)).getD file
  Cut.lead (Text.toLower base ++ ['_']) (Text.toLower stem)

theorem locale?_eq (base name : Text) :
    locale? base name = (suffix? base name).bind fun suffix => (Locale.parse suffix).toOption := rfl

theorem written_of_locale? {base name : Text} {l : Locale} (h : locale? base name = some l) :
    l.Written := by
  rw [locale?_eq] at h
  obtain ⟨suffix, -, read⟩ := Option.bind_eq_some_iff.mp h
  exact Locale.written_of_parse (Outcome.eq_ok_of_toOption read)

theorem fileName_of_filed {name place file : Text} (filed : Filed name place file) :
    fileName name = file := by
  rw [fileName, filed.spelled, Cut.afterLast]
  rcases filed.within with rfl | ⟨directory, rfl⟩
  · rw [List.nil_append, Cut.last_eq_none_iff.mpr filed.oneName]
  · rw [Cut.last_eq_some_iff.mpr ⟨List.append_assoc .., filed.oneName⟩]

theorem fileName_of_placed {name place stem extension : Text}
    (placed : Placed name place stem extension) :
    fileName (normalize name) = stem ++ '.' :: extension := by
  rw [fileName, normalize_normalize]
  exact fileName_of_filed placed.filed

theorem suffix?_of_placed {name place stem extension : Text}
    (placed : Placed name place stem extension) (base : Text) :
    suffix? base (normalize name) = Cut.lead (Text.toLower base ++ ['_']) (Text.toLower stem) := by
  have cut : Cut.last '.' (stem ++ '.' :: extension) = some (stem, extension) :=
    Cut.last_eq_some_iff.mpr ⟨rfl, placed.oneExtension⟩
  rw [suffix?, fileName_of_placed placed, cut]
  rfl

end Variants

namespace Resource

/-- A place is a boundary, so that names in it have one lower case where they have it alone. -/
theorem Placed.toLower_congr {name place stem extension : Text}
    (placed : Placed name place stem extension) {x y : Text}
    (same : Text.toLower x = Text.toLower y) :
    Text.toLower (place ++ x) = Text.toLower (place ++ y) := by
  rcases placed.within with rfl | ⟨directory, -, rfl⟩
  · exact same
  · rw [List.append_assoc, List.append_assoc, List.singleton_append, List.singleton_append,
      Text.toLower_boundary Text.boundary_slash, Text.toLower_boundary Text.boundary_slash, same]

theorem Placed.normalize_siblingName {name place stem extension : Text}
    (placed : Placed name place stem extension) {l : Locale} (written : l.Written) :
    normalize (siblingName name l.name) = siblingName name l.name := by
  have absent := backslash_not_mem_normalize name
  have inName : '\\' ∉ l.name := fun there => absurd (written.name '\\' there) (by decide)
  rw [placed.spelled] at absent
  rw [placed.siblingName_eq]
  refine normalize_of_not_mem ?_
  simp only [List.mem_append, List.mem_cons, not_or] at absent ⊢
  exact ⟨⟨absent.1, by decide, inName⟩, absent.2⟩

/-- A document beside another that carries the name of a locale up to case is its sibling. -/
theorem Placed.comparable_eq {file variant place base stem extension : Text}
    (placed : Placed file place base extension) (beside : Placed variant place stem extension)
    {l : Locale} (written : l.Written)
    (carries : Variants.suffix? base (normalize variant) = some (Locale.lower l.name)) :
    comparable variant = comparable (siblingName file l.name) := by
  have noUnderscore : '_' ∉ Locale.lower l.name := by
    intro there
    obtain ⟨c, hc, lowered⟩ := List.mem_map.mp there
    rcases written.name c hc with letter | rfl
    · exact absurd (lowered ▸ Locale.isAlphanum_toLower letter) (by decide)
    · cases lowered
  -- The underscore of the suffix parts the stem, since the name of a locale has none; what is
  -- behind it is that name up to case.
  rw [Variants.suffix?_of_placed beside, Cut.lead_eq_some_iff, List.append_assoc,
    List.singleton_append] at carries
  obtain ⟨x, y, rfl, lowerBase, lowerName⟩ := Text.cut_of_toLower carries noUnderscore
  have letters : List.Forall₂ Text.SameLetter y l.name :=
    Text.sameLetters_of_lowered written.ascii_name lowerName
  have ending : Text.toLower (y ++ '.' :: extension) = Text.toLower (l.name ++ '.' :: extension) :=
    Text.lowerAfter_sameLetters letters rfl _
  have leading : Text.toLower (place ++ x) = Text.toLower (place ++ base) :=
    placed.toLower_congr lowerBase
  calc comparable variant
      = Text.toLower ((place ++ x) ++ '_' :: (y ++ '.' :: extension)) := by
        rw [comparable, beside.spelled]
        simp only [List.append_assoc, List.cons_append]
    _ = Text.toLower ((place ++ base) ++ '_' :: (l.name ++ '.' :: extension)) := by
        rw [Text.toLower_boundary Text.boundary_underscore, ending, leading,
          ← Text.toLower_boundary Text.boundary_underscore]
    _ = comparable (siblingName file l.name) := by
        rw [comparable, placed.normalize_siblingName written, placed.siblingName_eq]
        simp only [List.append_assoc, List.cons_append]

end Resource

namespace Family

open Embedded
open Document (Declares)

/-- Discovery lists a good document of a set, in a place and with an extension, among the variants
of a base name, and reads a locale from its name. -/
structure Reported (e : Embedded) (place base extension variant copy : Text) (l : Locale) :
    Prop where
  listed : (variant, copy) ∈ e.documents
  good : ¬ Document.Bad copy
  beside : ∃ stem, Placed variant place stem extension
  found : ∃ files directory names, Variants.list e files directory base = .ok names ∧
    normalize variant ∈ names
  locale : Variants.locale? base (normalize variant) = some l

theorem reported_of {e : Embedded} {place base extension variant copy : Text} {l : Locale}
    (stem : Text) (names : List Text)
    (h : (variant, copy) ∈ e.documents ∧ ¬ Document.Bad copy ∧
      Placed variant place stem extension ∧
      (Variants.list e .empty none base).toOption = some names ∧ normalize variant ∈ names ∧
      Variants.locale? base (normalize variant) = some l) :
    Reported e place base extension variant copy l := by
  obtain ⟨listed, good, placed, found, there, locale⟩ := h
  exact ⟨listed, good, ⟨stem, placed⟩,
    ⟨.empty, none, names, Outcome.eq_ok_of_toOption found, there⟩, locale⟩

/-- A reported variant of a locale that is not the invariant one, whose name carries that of the
locale up to case, answers for the locale with every text that it declares, where the variant
answers its own name and whatever answers that of the document can be read. -/
theorem resolve_reported {n : Nat} {r : Resources}
    {file text place base extension variant copy : Text} {l : Locale}
    (stands : Stands (r.set n) file text place base extension)
    (reported : Reported (r.set n) place base extension variant copy l)
    (particular : l.isInvariant = false)
    (carries : Variants.suffix? base (normalize variant) = some (Locale.lower l.name))
    (answered : ∀ answer, (r.set n).read file = some answer → ¬ Document.Bad answer)
    (byName : AnswersByName (r.set n).documents (siblingName file l.name)) :
    ∃ f, (read (.embeddedOnly n) r file).value = .ok f ∧ ∀ calls : List Call,
      (∀ c ∈ calls, c.resources.set n = r.set n) → ∀ key answer : Text,
      Declares copy key answer → ((f.after calls).resolve r key l).value.1 = answer := by
  obtain ⟨found, first⟩ := exists_firstFitting stands.listed (fits_of_comparable_eq rfl)
  obtain ⟨f, made⟩ := read_embeddedOnly first.read_eq (answered found.2 first.read_eq)
  obtain ⟨stem, beside⟩ := reported.beside
  have written := Variants.written_of_locale? reported.locale
  have sibling : (r.set n).read (siblingName file l.name) = some copy :=
    read_of_answersByName stands.distinct reported.listed
      (stands.placed.comparable_eq beside written carries) byName
  refine ⟨f, made, fun calls same key answer declares => ?_⟩
  have first := Loader.tier_eq_some_iff.mpr ⟨copy, sibling, declares⟩
  have notInvariant : ¬ l.isInvariant = true := ne_true_of_eq_false particular
  rw [resolve_embeddedOnly made same, lookup, findSome?_tiers made, tierNames, siblingNames,
    if_neg notInvariant, List.cons_append, List.findSome?_cons, first]
  rfl

/-- One embedded set, and nothing on disk. -/
def holding (documents : List (Text × Text)) : Resources := ⟨[⟨documents⟩], .empty⟩

def austrian : Locale := ⟨"de".toList, none, some "AT".toList, []⟩

/-- A document and an Austrian variant, named with other separators and in other cases. -/
def spelledFreely : List (Text × Text) :=
  [("i18n/Strings.toml".toList, "title = 'Title'".toList),
    ("i18n\\strings_DE-at.toml".toList, "title = 'Servus'".toList)]

theorem resolve_reported_austrian :
    Stands ⟨spelledFreely⟩ "i18n/Strings.toml".toList "title = 'Title'".toList
        "i18n/".toList "Strings".toList "toml".toList ∧
      Reported ⟨spelledFreely⟩ "i18n/".toList "Strings".toList "toml".toList
        "i18n\\strings_DE-at.toml".toList "title = 'Servus'".toList austrian ∧
      austrian.isInvariant = false ∧
      Variants.suffix? "Strings".toList (normalize "i18n\\strings_DE-at.toml".toList) =
        some (Locale.lower austrian.name) ∧
      (∀ answer, (Embedded.mk spelledFreely).read "i18n/Strings.toml".toList = some answer →
        ¬ Document.Bad answer) ∧
      AnswersByName spelledFreely (siblingName "i18n/Strings.toml".toList austrian.name) ∧
      ∃ f, (read (.embeddedOnly 0) (holding spelledFreely) "i18n/Strings.toml".toList).value =
          .ok f ∧
        ((f.after []).resolve (holding spelledFreely) "title".toList austrian).value.1 =
          "Servus".toList := by
  have stands : Stands ⟨spelledFreely⟩ "i18n/Strings.toml".toList "title = 'Title'".toList
      "i18n/".toList "Strings".toList "toml".toList := by decide +kernel
  have reported : Reported ⟨spelledFreely⟩ "i18n/".toList "Strings".toList "toml".toList
      "i18n\\strings_DE-at.toml".toList "title = 'Servus'".toList austrian :=
    reported_of "strings_DE-at".toList ["i18n/strings_DE-at.toml".toList] (by decide +kernel)
  have carries : Variants.suffix? "Strings".toList (normalize "i18n\\strings_DE-at.toml".toList) =
      some (Locale.lower austrian.name) := by decide +kernel
  have own : (Embedded.mk spelledFreely).read "i18n/Strings.toml".toList =
      some "title = 'Title'".toList := by decide +kernel
  have answered : ∀ answer, (Embedded.mk spelledFreely).read "i18n/Strings.toml".toList =
      some answer → ¬ Document.Bad answer := by
    intro answer read
    cases own.symm.trans read
    exact stands.good
  have byName : AnswersByName spelledFreely
      (siblingName "i18n/Strings.toml".toList austrian.name) :=
    answersByName_of_forall (by decide +kernel)
  obtain ⟨f, made, answers⟩ := resolve_reported (n := 0) (r := holding spelledFreely)
    stands reported (by decide +kernel) carries answered byName
  exact ⟨stands, reported, by decide +kernel, carries, answered, byName, f, made,
    answers [] (fun c hc => (List.not_mem_nil hc).elim) _ _ (by decide +kernel)⟩

/-- A variant that is reported for a locale, as the only document of its place, and that declares a
text which a look-up for the locale does not give. -/
structure Missed (documents : List (Text × Text)) (file text place base extension : Text)
    (variant copy : Text) (l : Locale) : Prop where
  stands : Stands ⟨documents⟩ file text place base extension
  reported : Reported ⟨documents⟩ place base extension variant copy l
  only : ∀ d ∈ documents, (∃ stem, Placed d.1 place stem extension) →
    Variants.locale? base (normalize d.1) = some l → d.1 = variant
  missed : ∃ f key answer, (read (.embeddedOnly 0) (holding documents) file).value = .ok f ∧
    Declares copy key answer ∧ (f.resolve (holding documents) key l).value.1 ≠ answer

theorem only_of_startsWith {documents : List (Text × Text)} {place base extension variant : Text}
    {l : Locale} (h : ∀ d ∈ documents, place <+: normalize d.1 →
      Variants.locale? base (normalize d.1) = some l → d.1 = variant) :
    ∀ d ∈ documents, (∃ stem, Placed d.1 place stem extension) →
      Variants.locale? base (normalize d.1) = some l → d.1 = variant :=
  fun d hd ⟨_, placed⟩ => h d hd placed.startsWith

/-- A variant for no particular language. -/
def invariantVariant : List (Text × Text) :=
  [("strings.toml".toList, "title = 'Title'".toList),
    ("strings_und.toml".toList, "title = 'Und'".toList)]

/-- An Austrian variant with an underscore in the name of its locale. -/
def underscored : List (Text × Text) :=
  [("strings.toml".toList, "title = 'Title'".toList),
    ("strings_de_AT.toml".toList, "title = 'Servus'".toList)]

/-- A German variant behind one of another directory that ends with its name. -/
def shadowed : List (Text × Text) :=
  [("old/i18n/strings_de.toml".toList, "title = 'Alt'".toList),
    ("i18n/strings.toml".toList, "title = 'Title'".toList),
    ("i18n/strings_de.toml".toList, "title = 'Titel'".toList)]

/-- The invariant locale has no documents of its own, a locale is asked for by its one name, and a
name is answered by the first document that ends with it. -/
theorem reported_but_missed :
    Missed invariantVariant "strings.toml".toList "title = 'Title'".toList [] "strings".toList
        "toml".toList "strings_und.toml".toList "title = 'Und'".toList .invariant ∧
      Missed underscored "strings.toml".toList "title = 'Title'".toList [] "strings".toList
        "toml".toList "strings_de_AT.toml".toList "title = 'Servus'".toList austrian ∧
      Missed shadowed "i18n/strings.toml".toList "title = 'Title'".toList "i18n/".toList
        "strings".toList "toml".toList "i18n/strings_de.toml".toList "title = 'Titel'".toList
        german := by
  refine ⟨?invariant, ?underscore, ?shadow⟩
  case invariant =>
    exact {
      stands := by decide +kernel
      reported := reported_of "strings_und".toList ["strings_und.toml".toList] (by decide +kernel)
      only := only_of_startsWith (by decide +kernel)
      missed := ⟨⟨"strings.toml".toList, .embeddedOnly 0, archivedFamily.invariant, none⟩,
        "title".toList, "Und".toList, Outcome.eq_ok_of_toOption (by decide +kernel),
        by decide +kernel⟩ }
  case underscore =>
    exact {
      stands := by decide +kernel
      reported := reported_of "strings_de_AT".toList ["strings_de_AT.toml".toList]
        (by decide +kernel)
      only := only_of_startsWith (by decide +kernel)
      missed := ⟨⟨"strings.toml".toList, .embeddedOnly 0, archivedFamily.invariant, none⟩,
        "title".toList, "Servus".toList, Outcome.eq_ok_of_toOption (by decide +kernel),
        by decide +kernel⟩ }
  case shadow =>
    exact {
      stands := by decide +kernel
      reported := reported_of "strings_de".toList
        ["i18n/strings_de.toml".toList, "old/i18n/strings_de.toml".toList] (by decide +kernel)
      only := only_of_startsWith (by decide +kernel)
      missed := ⟨archivedFamily, "title".toList, "Titel".toList,
        Outcome.eq_ok_of_toOption (by decide +kernel), by decide +kernel⟩ }

end Family

end Phrasebook
