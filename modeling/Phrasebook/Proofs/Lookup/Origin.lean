import Phrasebook.Proofs.Lookup.Fallback
import Phrasebook.Proofs.Resources.Name

/-! Where an answer comes from. A document or one of its siblings declares it; names are asked for by
how they end, so that a document of another directory can stand in for either, and where none fits
an answer never leaves the family. -/
namespace Phrasebook.Family

open Resource Embedded
open Document (Declares)

/-- A document with a stem and an extension stands in a set of distinct names, and is not bad. -/
structure Stands (e : Embedded) (file text place stem extension : Text) : Prop where
  distinct : (e.documents.map fun d => comparable d.1).Nodup
  listed : (file, text) ∈ e.documents
  good : ¬ Document.Bad text
  placed : Placed file place stem extension

instance (e : Embedded) (file text place stem extension : Text) :
    Decidable (Stands e file text place stem extension) :=
  decidable_of_iff ((e.documents.map fun d => comparable d.1).Nodup ∧
      (file, text) ∈ e.documents ∧ ¬ Document.Bad text ∧ Placed file place stem extension)
    ⟨fun ⟨distinct, listed, good, placed⟩ => ⟨distinct, listed, good, placed⟩,
      fun h => ⟨h.distinct, h.listed, h.good, h.placed⟩⟩

/-- What a sibling for the locale carries after the stem: the whole name of a locale that is not the
invariant one, or its bare language. -/
def Suffix (l : Locale) (suffix : Text) : Prop :=
  l.isInvariant = false ∧
    (suffix = l.name ∨ l.language ≠ Locale.undetermined ∧ suffix = l.language)

/-- The names of a family: that of the document, and those of its siblings for the locale. -/
inductive Kin (file place stem extension : Text) (l : Locale) : Text → Prop
  | own : Kin file place stem extension l file
  | sibling {suffix : Text} (suits : Suffix l suffix) :
      Kin file place stem extension l (place ++ stem ++ '_' :: suffix ++ '.' :: extension)

theorem mem_siblingNames {file name : Text} {l : Locale} (h : name ∈ siblingNames file l) :
    ∃ suffix, Suffix l suffix ∧ name = siblingName file suffix := by
  rw [siblingNames] at h
  split at h
  · cases h
  · rename_i particular
    rw [Bool.not_eq_true] at particular
    rcases List.mem_cons.mp h with rfl | bare
    · exact ⟨l.name, ⟨particular, .inl rfl⟩, rfl⟩
    · split at bare
      · rename_i hasBare
        exact ⟨l.language, ⟨particular, .inr ⟨hasBare.1, rfl⟩⟩, List.mem_singleton.mp bare⟩
      · cases bare

theorem kin_of_mem_tierNames {file place stem extension name : Text} {l : Locale}
    (placed : Placed file place stem extension) (h : name ∈ tierNames file l) :
    Kin file place stem extension l name := by
  rcases List.mem_append.mp h with sibling | own
  · obtain ⟨suffix, suits, rfl⟩ := mem_siblingNames sibling
    rw [placed.siblingName_eq]
    exact .sibling suits
  · rw [List.mem_singleton.mp own]
    exact .own

theorem answer_eq_missing_or_tier {n : Nat} {r : Resources} {file : Text} {f : Family}
    (made : (read (.embeddedOnly n) r file).value = .ok f) {calls : List Call}
    (same : ∀ c ∈ calls, c.resources.set n = r.set n) (key : Text) (l : Locale) :
    ((f.after calls).resolve r key l).value.1 = missingText key ∨
      ∃ name ∈ tierNames file l, ((Loader.embeddedOnly n).tier r name).bind (· key) =
        some ((f.after calls).resolve r key l).value.1 := by
  rw [resolve_embeddedOnly made same, lookup, findSome?_tiers made]
  cases found : (tierNames file l).findSome? fun name =>
      ((Loader.embeddedOnly n).tier r name).bind (· key) with
  | none => exact .inl rfl
  | some answer => exact .inr (List.exists_of_findSome?_eq_some found)

/-- An answer is the text of a first document that fits a name of the family. -/
theorem first_fitting_of_answer {n : Nat} {r : Resources} {file place stem extension : Text}
    (placed : Placed file place stem extension) {f : Family}
    (made : (read (.embeddedOnly n) r file).value = .ok f) {calls : List Call}
    (same : ∀ c ∈ calls, c.resources.set n = r.set n) {key answer : Text} {l : Locale}
    (answered : ((f.after calls).resolve r key l).value.1 = answer) :
    answer = missingText key ∨ ∃ name document, Kin file place stem extension l name ∧
      FirstFitting (r.set n).documents name document ∧ Declares document.2 key answer := by
  subst answered
  rcases answer_eq_missing_or_tier made same key l with missing | ⟨name, kin, found⟩
  · exact .inl missing
  · obtain ⟨copy, hcopy, declares⟩ := Loader.tier_eq_some_iff.mp found
    obtain ⟨candidate, first⟩ := read_eq_some_iff.mp hcopy
    exact .inr ⟨name, (candidate, copy), kin_of_mem_tierNames placed kin, first, declares⟩

/-- A family that was made from an embedded set answers with texts of the first documents that fit
its names. Where what answers each of these names has that very name, the family is made, and it
answers with the texts of its own document and of siblings in the same place. -/
theorem answers_come_from_fitting {n : Nat} {r : Resources}
    {file text place stem extension : Text}
    (stands : Stands (r.set n) file text place stem extension) :
    (∀ f, (read (.embeddedOnly n) r file).value = .ok f → ∀ calls : List Call,
      (∀ c ∈ calls, c.resources.set n = r.set n) → ∀ (l : Locale) (key answer : Text),
      ((f.after calls).resolve r key l).value.1 = answer →
      answer = missingText key ∨ ∃ name document, Kin file place stem extension l name ∧
        FirstFitting (r.set n).documents name document ∧ Declares document.2 key answer) ∧
    (∀ l : Locale,
      (∀ name, Kin file place stem extension l name → AnswersByName (r.set n).documents name) →
      ∃ f, (read (.embeddedOnly n) r file).value = .ok f ∧ ∀ calls : List Call,
      (∀ c ∈ calls, c.resources.set n = r.set n) → ∀ key answer : Text,
      ((f.after calls).resolve r key l).value.1 = answer →
      answer = missingText key ∨ Declares text key answer ∨
        ∃ suffix, Suffix l suffix ∧ ∃ d ∈ (r.set n).documents,
          comparable d.1 = comparable (place ++ stem ++ '_' :: suffix ++ '.' :: extension) ∧
          Declares d.2 key answer) := by
  refine ⟨fun f made calls same l key answer answered =>
    first_fitting_of_answer stands.placed made same answered, fun l byName => ?_⟩
  have own := read_of_answersByName stands.distinct stands.listed rfl (byName file .own)
  obtain ⟨f, made⟩ := read_embeddedOnly own stands.good
  refine ⟨f, made, fun calls same key answer answered => ?_⟩
  rcases first_fitting_of_answer stands.placed made same answered with
    missing | ⟨name, document, kin, first, declares⟩
  · exact .inl missing
  · refine .inr ?_
    have hasName := byName name kin document first
    cases kin with
    | own =>
        have itself : document = (file, text) :=
          List.inj_on_of_nodup_map stands.distinct first.mem stands.listed hasName
        rw [itself] at declares
        exact .inl declares
    | sibling suits => exact .inr ⟨_, suits, document, first.mem, hasName, declares⟩

/-- A document whose German sibling is found only in a copy of its directory further down. -/
def archived : Resources :=
  ⟨[⟨[("i18n/strings.toml".toList, "title = 'Title'".toList),
    ("old/i18n/strings_de.toml".toList, "title = 'Alt'".toList)]⟩], .empty⟩

def archivedFamily : Family :=
  ⟨"i18n/strings.toml".toList, .embeddedOnly 0, [("title".toList, "Title".toList)], none⟩

def german : Locale := ⟨"de".toList, none, none, []⟩

def english : Locale := ⟨"en".toList, none, none, []⟩

theorem archived_stands : Stands (archived.set 0) archivedFamily.file "title = 'Title'".toList
    "i18n/".toList "strings".toList "toml".toList := by decide +kernel

/-- For English no other document answers, and for German the one further down does. -/
theorem answers_come_from_fitting_archived :
    Stands (archived.set 0) archivedFamily.file "title = 'Title'".toList
        "i18n/".toList "strings".toList "toml".toList ∧
      (read (.embeddedOnly 0) archived archivedFamily.file).value = .ok archivedFamily ∧
      (∃ name document,
        Kin archivedFamily.file "i18n/".toList "strings".toList "toml".toList german name ∧
        FirstFitting (archived.set 0).documents name document ∧
        Declares document.2 "title".toList "Alt".toList) ∧
      (∀ name, Kin archivedFamily.file "i18n/".toList "strings".toList "toml".toList english name →
        AnswersByName (archived.set 0).documents name) ∧
      ∃ f, (read (.embeddedOnly 0) archived archivedFamily.file).value = .ok f ∧
        ∀ answer, ((f.after []).resolve archived "title".toList english).value.1 = answer →
          answer = missingText "title".toList ∨
          Declares "title = 'Title'".toList "title".toList answer ∨
          ∃ suffix, Suffix english suffix ∧ ∃ d ∈ (archived.set 0).documents,
            comparable d.1 = comparable ("i18n/".toList ++ "strings".toList ++ '_' :: suffix ++
              '.' :: "toml".toList) ∧
            Declares d.2 "title".toList answer := by
  have made : (read (.embeddedOnly 0) archived archivedFamily.file).value = .ok archivedFamily :=
    Outcome.eq_ok_of_toOption (by decide +kernel)
  have nothing : ∀ c ∈ ([] : List Call), c.resources.set 0 = archived.set 0 :=
    fun c hc => (List.not_mem_nil hc).elim
  have byName : ∀ name,
      Kin archivedFamily.file "i18n/".toList "strings".toList "toml".toList english name →
      AnswersByName (archived.set 0).documents name := by
    have all : ∀ name ∈ [archivedFamily.file, "i18n/strings_en.toml".toList],
        ∀ d ∈ (archived.set 0).documents, Fits d.1 name → comparable d.1 = comparable name := by
      decide +kernel
    intro name kin
    refine answersByName_of_forall (all name ?_)
    cases kin with
    | own => exact List.mem_cons_self
    | sibling suits =>
        obtain ⟨-, rfl | ⟨-, rfl⟩⟩ := suits <;> decide +kernel
  obtain ⟨anyone, family⟩ := answers_come_from_fitting archived_stands
  have answered : ((archivedFamily.after []).resolve archived "title".toList german).value.1 =
      "Alt".toList := by decide +kernel
  refine ⟨archived_stands, made, ?_, byName, ?_⟩
  · rcases anyone archivedFamily made [] nothing german _ _ answered with missing | found
    · exact absurd missing (by decide +kernel)
    · exact found
  · obtain ⟨f, madeAgain, answers⟩ := family english byName
    exact ⟨f, madeAgain, answers [] nothing "title".toList⟩

/-- The German text of a document is that of another directory, while neither the document nor a
sibling in its place declares it. -/
theorem text_from_another_directory :
    Stands (archived.set 0) archivedFamily.file "title = 'Title'".toList
        "i18n/".toList "strings".toList "toml".toList ∧
      (read (.embeddedOnly 0) archived archivedFamily.file).value = .ok archivedFamily ∧
      (archivedFamily.resolve archived "title".toList german).value.1 = "Alt".toList ∧
      "Alt".toList ≠ missingText "title".toList ∧
      ¬ Declares "title = 'Title'".toList "title".toList "Alt".toList ∧
      ∀ suffix, (suffix = german.name ∨ suffix = german.language) →
        ∀ d ∈ (archived.set 0).documents, comparable d.1 ≠
          comparable ("i18n/strings".toList ++ '_' :: suffix ++ ".toml".toList) := by
  refine ⟨archived_stands, Outcome.eq_ok_of_toOption (by decide +kernel), by decide +kernel,
    by decide +kernel, by decide +kernel, ?_⟩
  rintro suffix (rfl | rfl) <;> decide +kernel

end Phrasebook.Family
