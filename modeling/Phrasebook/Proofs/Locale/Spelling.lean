import Phrasebook.Proofs.Locale.Canonical
import Phrasebook.Proofs.Locale.Name

/-! Spellings of an identifier. Letter case, the kind of separator and white space around do not
count; what is read is written again by the name of the identifier, and its bare language is what
the language alone reads as. -/
namespace Phrasebook

namespace Locale

/-- Two characters that mean the same in an identifier: a letter in either case, or a hyphen and an
underscore. -/
def Alike (c d : Char) : Prop :=
  c.toLower = d.toLower ∨ (c = '-' ∨ c = '_') ∧ (d = '-' ∨ d = '_')

instance (c d : Char) : Decidable (Alike c d) := inferInstanceAs (Decidable (_ ∨ _))

/-- The text with white space around it. -/
def Padded (core s : Text) : Prop :=
  ∃ before after, s = before ++ core ++ after ∧ (∀ c ∈ before, Text.isBlank c = true) ∧
    ∀ c ∈ after, Text.isBlank c = true

theorem padded_self (s : Text) : Padded s s :=
  ⟨[], [], (List.append_nil s).symm, List.forall_mem_nil _, List.forall_mem_nil _⟩

/-- Two texts that differ only in letter case, in the kind of separator, and in white space around
them. -/
def Respelled (s s' : Text) : Prop :=
  ∃ core core', Padded core s ∧ Padded core' s' ∧ List.Forall₂ Alike core core'

/-- The character that stands for all that mean the same. -/
def folded (c : Char) : Char := (if c = '_' then '-' else c).toLower

theorem toLower_eq_separator {d : Char} (separator : d = '-' ∨ d = '_') (c : Char) :
    c.toLower = d ↔ c = d := by
  apply case_forall (P := fun c => c.toLower = d ↔ c = d)
  · rcases separator with rfl | rfl <;> decide +kernel
  · intro c _ _ _ same _
    rw [same]

theorem folded_of_alike {c d : Char} (h : Alike c d) : folded c = folded d := by
  rcases h with same | ⟨rfl | rfl, rfl | rfl⟩
  · have both : c = '_' ↔ d = '_' := by
      rw [← toLower_eq_separator (.inr rfl) c, same, toLower_eq_separator (.inr rfl) d]
    rw [folded, folded]
    by_cases under : c = '_'
    · rw [if_pos under, if_pos (both.mp under)]
    · rw [if_neg under, if_neg fun h => under (both.mpr h), same]
  all_goals rfl

theorem isBlank_folded (c : Char) : Text.isBlank (folded c) = Text.isBlank c := by
  apply case_forall (P := fun c => Text.isBlank (folded c) = Text.isBlank c) (by decide +kernel)
  intro c _ _ _ same _
  rw [folded]
  split
  · rename_i under
    rw [under]
    decide
  · rw [same]

/-- The subtags of a text, in lower case, are told by its folded form. -/
theorem subtagsOf_folded (s : Text) :
    (subtagsOf s).map lower = Text.segments '-' (Text.trim (s.map folded)) := by
  have trimmed : Text.trim (s.map folded) = (Text.trim s).map folded :=
    Cut.trim_map isBlank_folded s
  have twice : (Text.trim s).map folded =
      ((Text.trim s).map fun c => if c = '_' then '-' else c).map Char.toLower := by
    rw [List.map_map]
    rfl
  rw [trimmed, twice, Text.segments, Cut.splitOn_map (toLower_eq_separator (.inl rfl))]
  rfl

theorem trim_of_padded {core s : Text} (h : Padded core s) :
    Text.trim (s.map folded) = Text.trim (core.map folded) := by
  obtain ⟨before, after, rfl, front, back⟩ := h
  rw [Text.trim, Text.trim, Cut.trim_map isBlank_folded, Cut.trim_map isBlank_folded,
    Cut.trim_padded front back]

theorem map_folded_of_alike {core core' : Text} (alike : List.Forall₂ Alike core core') :
    core.map folded = core'.map folded := by
  induction alike with
  | nil => rfl
  | cons first _ ih => exact congrArg₂ List.cons (folded_of_alike first) ih

theorem subtags_of_respelled {s s' : Text} (h : Respelled s s') :
    (subtagsOf s).map lower = (subtagsOf s').map lower := by
  obtain ⟨core, core', padded, padded', alike⟩ := h
  rw [subtagsOf_folded, subtagsOf_folded, trim_of_padded padded, trim_of_padded padded',
    map_folded_of_alike alike]

/-! No reader of subtags tells letter case. -/

theorem language?_lower (s : Text) : language? (lower s) = language? s := by
  ext t
  rw [language?_eq_some_iff, language?_eq_some_iff, lower_lower]

theorem script?_lower (s : Text) : script? (lower s) = script? s := by
  ext t
  rw [script?_eq_some_iff, script?_eq_some_iff, title_lower]

theorem region?_lower (s : Text) : region? (lower s) = region? s := by
  ext t
  rw [region?_eq_some_iff, region?_eq_some_iff, upper_lower]

theorem variant?_lower (s : Text) : variant? (lower s) = variant? s := by
  ext t
  rw [variant?_eq_some_iff, variant?_eq_some_iff, lower_lower]

theorem addVariants_lower (tags variants : List Text) :
    addVariants (tags.map lower) variants = addVariants tags variants := by
  induction tags generalizing variants with
  | nil => rfl
  | cons tag rest ih =>
      rw [List.map_cons, addVariants, addVariants, variant?_lower]
      simp only [ih]

theorem readRegion_lower (id : Locale) (tags : List Text) :
    readRegion id (tags.map lower) = readRegion id tags := by
  cases tags with
  | nil => rfl
  | cons tag rest =>
      rw [List.map_cons, readRegion, readRegion, region?_lower, addVariants_lower,
        ← List.map_cons, addVariants_lower]

theorem readScript_lower (id : Locale) (tags : List Text) :
    readScript id (tags.map lower) = readScript id tags := by
  cases tags with
  | nil => rfl
  | cons tag rest =>
      rw [List.map_cons, readScript, readScript, script?_lower]
      simp only [readRegion_lower, ← List.map_cons]

theorem ofSubtags_lower (tags : List Text) : ofSubtags (tags.map lower) = ofSubtags tags := by
  cases tags with
  | nil => rfl
  | cons tag rest =>
      rw [List.map_cons, ofSubtags, ofSubtags, language?_lower]
      simp only [readScript_lower]

/-- Respelled texts are read alike, as an identifier or with a fault. -/
theorem parse_of_respelled {s s' : Text} (h : Respelled s s') :
    (∃ l, parse s = .ok l ∧ parse s' = .ok l) ∨
      ∃ fault, parse s = .error ⟨s, fault⟩ ∧ parse s' = .error ⟨s', fault⟩ := by
  have same : ofSubtags (subtagsOf s) = ofSubtags (subtagsOf s') := by
    rw [← ofSubtags_lower, subtags_of_respelled h, ofSubtags_lower]
  rw [parse_eq, parse_eq, same]
  cases ofSubtags (subtagsOf s') with
  | ok l => exact .inl ⟨l, rfl, rfl⟩
  | error fault => exact .inr ⟨fault, rfl, rfl⟩

theorem Canonical.parse_lower_name {l : Locale} (canonical : l.Canonical) :
    parse (lower l.name) = .ok l := by
  have alike : List.Forall₂ Alike (lower l.name) l.name := by
    rw [lower, List.forall₂_map_left_iff, List.forall₂_same]
    exact fun c _ => .inl (toLower_toLower c)
  rcases parse_of_respelled ⟨_, _, padded_self _, padded_self _, alike⟩ with ⟨l', read, again⟩ | ⟨_, -, failed⟩
  · cases canonical.parse_name.symm.trans again
    exact read
  · cases canonical.parse_name.symm.trans failed

def bare (language : Text) : Locale := ⟨language, none, none, []⟩

theorem languageOnly_eq_none_iff (l : Locale) :
    l.languageOnly = none ↔ l.language = undetermined ∨ l = bare l.language := by
  rw [languageOnly]
  by_cases und : l.language = undetermined
  · simp [und]
  · rw [if_neg und, bare]
    by_cases alone : (⟨l.language, none, none, []⟩ : Locale) = l
    · simp [alone]
    · simp [alone, und, Ne.symm alone]

theorem parse_language {l : Locale} (canonical : l.Canonical) :
    parse l.language = .ok (bare l.language) := by
  have read := (canonical_bare canonical.language).parse_name
  rwa [name_bare] at read

/-- Letter case, kind of separator and white space around do not count when an identifier is read.
An identifier that is read is canonical, and is read again from its name; every canonical one is. It
has a bare language unless its language is undetermined or stands alone. This is what the language
reads as by itself, and has none of its own. -/
theorem spelling_does_not_matter :
    (∀ s s' : Text, Respelled s s' →
      (∃ l, parse s = .ok l ∧ parse s' = .ok l) ∨
        ∃ fault, parse s = .error ⟨s, fault⟩ ∧ parse s' = .error ⟨s', fault⟩) ∧
    (∀ l : Locale, l.Canonical ↔ ∃ s, parse s = .ok l) ∧
    (∀ (s : Text) (l : Locale), parse s = .ok l → parse l.name = .ok l ∧
      (l.languageOnly = none ↔ l.language = undetermined ∨
        l.script = none ∧ l.region = none ∧ l.variants = []) ∧
      (l.languageOnly ≠ none → ∃ only, l.languageOnly = some only ∧
        parse l.language = .ok only ∧ only.language = l.language ∧ only.languageOnly = none)) := by
  refine ⟨fun s s' => parse_of_respelled, fun l => ?shape, fun s l read => ?again⟩
  case shape =>
    exact ⟨fun canonical => ⟨l.name, canonical.parse_name⟩, fun ⟨_, read⟩ => canonical_of_parse read⟩
  case again =>
    have canonical := canonical_of_parse read
    have alone : l = bare l.language ↔ l.script = none ∧ l.region = none ∧ l.variants = [] := by
      cases l
      simp [bare]
    refine ⟨canonical.parse_name, ?_, fun some => ?_⟩
    · rw [languageOnly_eq_none_iff, alone]
    · have apart := fun h => some ((languageOnly_eq_none_iff l).mpr h)
      obtain ⟨und, more⟩ := not_or.mp apart
      refine ⟨bare l.language, ?_, parse_language canonical, rfl, ?_⟩
      · rw [languageOnly, if_neg und, if_neg fun same => more same.symm]
        rfl
      · exact (languageOnly_eq_none_iff _).mpr (.inr rfl)

def chinese : Locale := ⟨"zh".toList, some "Hans".toList, some "CN".toList, []⟩

/-- An identifier with white space around it, an underscore and letters of all cases. -/
theorem spelling_does_not_matter_chinese :
    Respelled " zh_hANS-cn\n".toList "ZH-Hans_CN".toList ∧
      parse " zh_hANS-cn\n".toList = .ok chinese ∧ parse "ZH-Hans_CN".toList = .ok chinese ∧
      chinese.Canonical ∧ parse chinese.name = .ok chinese ∧
      ∃ only, chinese.languageOnly = some only ∧ parse "zh".toList = .ok only ∧
        only.language = "zh".toList ∧ only.languageOnly = none := by
  obtain ⟨alike, canonical, again⟩ := spelling_does_not_matter
  have padded : Padded "zh_hANS-cn".toList " zh_hANS-cn\n".toList :=
    ⟨" ".toList, "\n".toList, by decide, List.all_eq_true.mp (by decide),
      List.all_eq_true.mp (by decide)⟩
  have respelled : Respelled " zh_hANS-cn\n".toList "ZH-Hans_CN".toList :=
    ⟨"zh_hANS-cn".toList, "ZH-Hans_CN".toList, padded, padded_self _, by decide +kernel⟩
  have read : parse "ZH-Hans_CN".toList = .ok chinese := by rfl
  obtain ⟨name, -, only⟩ := again _ _ read
  refine ⟨respelled, ?_, read, (canonical _).mpr ⟨_, read⟩, name, only (by decide)⟩
  rcases alike _ _ respelled with ⟨l, readOther, same⟩ | ⟨fault, -, failed⟩
  · cases read.symm.trans same
    exact readOther
  · cases read.symm.trans failed

end Locale

end Phrasebook
