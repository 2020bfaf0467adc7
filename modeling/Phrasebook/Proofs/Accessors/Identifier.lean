import Phrasebook.Accessors.Identifier

/-! Identifiers as the language of the source reads them. Whatever a name is, its identifier is a
word that is no keyword, or a keyword in raw form; and two names share one only where they are
written alike once they are made words, an underscore behind a word that cannot be raw apart. -/
namespace Phrasebook.Accessors

/-- The keywords that have a meaning in the language. -/
def strictKeywords : List Text :=
  ["as", "async", "await", "break", "const", "continue", "crate", "dyn", "else", "enum", "extern",
    "false", "fn", "for", "if", "impl", "in", "let", "loop", "match", "mod", "move", "mut", "pub",
    "ref", "return", "self", "Self", "static", "struct", "super", "trait", "true", "type", "unsafe",
    "use", "where", "while"].map String.toList

/-- The keywords that are kept back for later. -/
def unusedKeywords : List Text :=
  ["abstract", "become", "box", "do", "final", "gen", "macro", "override", "priv", "try", "typeof",
    "unsized", "virtual", "yield"].map String.toList

def keywords : List Text := strictKeywords ++ unusedKeywords

/-- The keywords that stand for a place; they have no raw form. -/
def placeKeywords : List Text := ["crate", "self", "Self", "super"].map String.toList

/-- A word over letters, digits and underscores: no digit leads, and it is more than one
underscore. -/
structure Word (s : Text) : Prop where
  present : s ≠ []
  chars : ∀ c ∈ s, c.isAlphanum = true ∨ c = '_'
  noDigit : ∀ c ∈ s.head?, c.isDigit = false
  more : s ≠ ['_']

instance (s : Text) : Decidable (Word s) :=
  decidable_of_iff (s ≠ [] ∧ s.all (fun c => decide (c.isAlphanum = true ∨ c = '_')) = true ∧
      s.head?.all (fun c => !c.isDigit) = true ∧ s ≠ ['_']) <| by
    simp only [List.all_eq_true, decide_eq_true_eq, Option.all_eq_true, Bool.not_eq_true']
    exact ⟨fun ⟨present, chars, noDigit, more⟩ => ⟨present, chars, noDigit, more⟩,
      fun ⟨present, chars, noDigit, more⟩ => ⟨present, chars, noDigit, more⟩⟩

theorem Word.not_mem {s : Text} {c : Char} (word : Word s)
    (sign : ¬ (c.isAlphanum = true ∨ c = '_')) : c ∉ s := fun there => sign (word.chars c there)

/-- What stands for a character in an identifier. -/
def underscored (c : Char) : Char := if c.isAlphanum = true ∨ c = '_' then c else '_'

/-- The form of a name that an identifier is made from. -/
inductive Sanitized : Text → Text → Prop where
  | empty : Sanitized [] ['_']
  | digit {c : Char} {rest : Text} (leads : c.isDigit = true) :
    Sanitized (c :: rest) ('_' :: (c :: rest).map underscored)
  | plain {c : Char} {rest : Text} (leads : c.isDigit = false) :
    Sanitized (c :: rest) ((c :: rest).map underscored)

theorem isIdentifierChar_iff {c : Char} :
    isIdentifierChar c = true ↔ c.isAlphanum = true ∨ c = '_' := by
  rw [isIdentifierChar, Bool.or_eq_true, beq_iff_eq]

theorem underscored_eq (c : Char) :
    underscored c = if isIdentifierChar c then c else '_' := by
  simp only [underscored, isIdentifierChar_iff]

theorem isDigit_underscored (c : Char) : (underscored c).isDigit = c.isDigit := by
  rw [underscored]
  split
  · rfl
  · rename_i other
    have noDigit : c.isDigit = false := by
      refine eq_false_of_ne_true fun digit => other (.inl ?_)
      rw [Char.isAlphanum, digit, Bool.or_true]
    rw [noDigit]
    decide

theorem identifierChar_underscored (c : Char) :
    (underscored c).isAlphanum = true ∨ underscored c = '_' := by
  rw [underscored]
  split
  · assumption
  · exact .inr rfl

theorem sanitized_sanitize (name : Text) : Sanitized name (sanitize name) := by
  have each : (fun c => if isIdentifierChar c then c else '_') = underscored :=
    funext fun c => (underscored_eq c).symm
  rw [sanitize, each]
  cases name with
  | nil => exact .empty
  | cons c rest =>
      rw [List.map_cons]
      dsimp only
      cases digit : c.isDigit with
      | true =>
          rw [isDigit_underscored, digit, if_pos rfl]
          exact .digit digit
      | false =>
          rw [isDigit_underscored, digit, if_neg Bool.false_ne_true]
          exact .plain digit

namespace Sanitized

variable {name s t : Text}

theorem unique (h : Sanitized name s) (h' : Sanitized name t) : s = t := by
  cases h with
  | empty =>
      cases h'
      rfl
  | digit leads =>
      cases h' with
      | digit => rfl
      | plain other => cases leads.symm.trans other
  | plain leads =>
      cases h' with
      | digit other => cases leads.symm.trans other
      | plain => rfl

theorem eq_sanitize (h : Sanitized name s) : sanitize name = s := (sanitized_sanitize name).unique h

theorem word (h : Sanitized name s) (more : s ≠ ['_']) : Word s := by
  have written : ∀ text : Text, ∀ c ∈ text.map underscored, c.isAlphanum = true ∨ c = '_' := by
    intro text c there
    obtain ⟨b, -, rfl⟩ := List.mem_map.mp there
    exact identifierChar_underscored b
  cases h with
  | empty => exact (more rfl).elim
  | digit leads =>
      refine ⟨List.cons_ne_nil _ _, List.forall_mem_cons.mpr ⟨.inr rfl, written _⟩, ?_, more⟩
      intro c head
      cases head
      decide
  | @plain c rest leads =>
      refine ⟨List.cons_ne_nil _ _, written _, ?_, more⟩
      intro c' head
      cases head
      rw [isDigit_underscored, leads]

end Sanitized

theorem word_sanitize {name : Text} (more : sanitize name ≠ ['_']) : Word (sanitize name) :=
  (sanitized_sanitize name).word more

theorem mem_words_of_keyword : ∀ k ∈ keywords, k ∈ rawWords ∨ k ∈ reservedWords := by
  decide +kernel

theorem keyword_of_rawWord : ∀ k ∈ rawWords, k ∈ keywords ∧ k ∉ placeKeywords := by
  decide +kernel

theorem keyword_of_place : ∀ k ∈ placeKeywords, k ∈ keywords := by
  decide +kernel

theorem reservedWords_eq : reservedWords = placeKeywords ++ [['_']] := by
  decide +kernel

/-- Behind a word that cannot be raw, the underscore makes a word of its own. -/
theorem reserved_concat : ∀ w ∈ reservedWords, Word (w ++ ['_']) ∧ w ++ ['_'] ∉ keywords ∧
    w ++ ['_'] ∉ reservedWords ∧ w ++ ['_'] ∉ rawWords := by
  decide +kernel

/-- How an identifier is made from the sanitised name. -/
inductive Identified (word : Text) : Text → Prop where
  | reserved (there : word ∈ reservedWords) : Identified word (word ++ ['_'])
  | raw (free : word ∉ reservedWords) (there : word ∈ rawWords) :
    Identified word ("r#".toList ++ word)
  | plain (free : word ∉ reservedWords) (noRaw : word ∉ rawWords) : Identified word word

theorem identified_identifier (name : Text) : Identified (sanitize name) (identifier name) := by
  rw [identifier]
  split
  · exact .reserved ‹_›
  · split
    · exact .raw ‹_› ‹_›
    · exact .plain ‹_› ‹_›

theorem mem_reservedWords_iff {s : Text} : s ∈ reservedWords ↔ s ∈ placeKeywords ∨ s = ['_'] := by
  rw [reservedWords_eq, List.mem_append, List.mem_singleton]

/-- A form is another one with the underscore behind it that a word without raw form is given. -/
def Marked (s t : Text) : Prop := (s ∈ placeKeywords ∨ s = ['_']) ∧ t = s ++ ['_']

namespace Identified

variable {word word' ident ident' : Text}

theorem unique (h : Identified word ident) (h' : Identified word ident') : ident = ident' := by
  cases h with
  | reserved there =>
      cases h' with
      | reserved => rfl
      | raw free => exact (free there).elim
      | plain free => exact (free there).elim
  | raw free there =>
      cases h' with
      | reserved taken => exact (free taken).elim
      | raw => rfl
      | plain _ noRaw => exact (noRaw there).elim
  | plain free noRaw =>
      cases h' with
      | reserved taken => exact (free taken).elim
      | raw _ there => exact (noRaw there).elim
      | plain => rfl

theorem usable (h : Identified word ident) (spelled : word ≠ ['_'] → Word word) :
    (∃ k ∈ keywords, k ∉ placeKeywords ∧ ident = "r#".toList ++ k) ∨
      (Word ident ∧ ident ∉ keywords) := by
  cases h with
  | reserved there =>
      obtain ⟨wordly, noKeyword, -⟩ := reserved_concat word there
      exact .inr ⟨wordly, noKeyword⟩
  | raw free there =>
      obtain ⟨keyword, noPlace⟩ := keyword_of_rawWord word there
      exact .inl ⟨word, keyword, noPlace, rfl⟩
  | plain free noRaw =>
      refine .inr ⟨spelled fun single => free ?_, fun keyword => ?_⟩
      · exact mem_reservedWords_iff.mpr (.inr single)
      · exact (mem_words_of_keyword word keyword).elim noRaw free

theorem hash_mem_iff (h : Identified word ident) (spelled : word ≠ ['_'] → Word word) :
    '#' ∈ ident ↔ word ∉ reservedWords ∧ word ∈ rawWords := by
  cases h with
  | reserved there =>
      have marked := (reserved_concat word there).1
      exact iff_of_false (marked.not_mem (by decide)) fun raw => raw.1 there
  | raw free there => exact iff_of_true (List.mem_cons_of_mem _ List.mem_cons_self) ⟨free, there⟩
  | plain free noRaw =>
      have more : word ≠ ['_'] := fun single => free (mem_reservedWords_iff.mpr (.inr single))
      exact iff_of_false (Word.not_mem (spelled more) (by decide)) fun raw => noRaw raw.2

/-- Behind a word without raw form, the underscore is what the marked word has as its own. -/
theorem of_marked (h : Identified word ident) (h' : Identified word' ident')
    (marked : Marked word word') : ident = ident' := by
  obtain ⟨special, rfl⟩ := marked
  have there := mem_reservedWords_iff.mpr special
  obtain ⟨-, -, free, noRaw⟩ := reserved_concat word there
  exact (h.unique (.reserved there)).trans ((Identified.plain free noRaw).unique h')

theorem eq_iff (h : Identified word ident) (h' : Identified word' ident')
    (spelled : word ≠ ['_'] → Word word) (spelled' : word' ≠ ['_'] → Word word') :
    ident = ident' ↔ word = word' ∨ Marked word word' ∨ Marked word' word := by
  constructor
  · intro same
    have raw : (word ∉ reservedWords ∧ word ∈ rawWords) ↔
        (word' ∉ reservedWords ∧ word' ∈ rawWords) := by
      rw [← h.hash_mem_iff spelled, ← h'.hash_mem_iff spelled', same]
    cases h with
    | reserved there =>
        cases h' with
        | reserved => exact .inl (List.append_cancel_right same)
        | raw free' there' => exact ((raw.mpr ⟨free', there'⟩).1 there).elim
        | plain => exact .inr (.inl ⟨mem_reservedWords_iff.mp there, same.symm⟩)
    | raw free there =>
        cases h' with
        | reserved there' => exact ((raw.mp ⟨free, there⟩).1 there').elim
        | raw => exact .inl (List.append_cancel_left same)
        | plain _ noRaw' => exact (noRaw' (raw.mp ⟨free, there⟩).2).elim
    | plain free noRaw =>
        cases h' with
        | reserved there' => exact .inr (.inr ⟨mem_reservedWords_iff.mp there', same⟩)
        | raw free' there' => exact (noRaw (raw.mpr ⟨free', there'⟩).2).elim
        | plain => exact .inl same
  · rintro (rfl | marked | marked)
    · exact h.unique h'
    · exact h.of_marked h' marked
    · exact (h'.of_marked h marked).symm

end Identified

theorem Sanitized.length_le {name s : Text} (h : Sanitized name s) : name.length ≤ s.length := by
  cases h with
  | empty => exact Nat.zero_le _
  | digit leads => simp
  | plain leads => simp

theorem Word.sanitized {s : Text} (word : Word s) : Sanitized s s := by
  have same : s.map underscored = s :=
    (List.map_congr_left fun c there => if_pos (word.chars c there)).trans (List.map_id s)
  cases s with
  | nil => exact (word.present rfl).elim
  | cons c rest =>
      have written : Sanitized (c :: rest) ((c :: rest).map underscored) :=
        .plain (word.noDigit c rfl)
      rwa [same] at written

theorem Identified.of_length_le {word ident : Text} (h : Identified word ident)
    (short : ident.length ≤ word.length) :
    ident = word ∧ word ∉ reservedWords ∧ word ∉ rawWords := by
  cases h with
  | reserved =>
      rw [List.length_append, List.length_singleton] at short
      omega
  | raw =>
      have sign : "r#".toList.length = 2 := rfl
      rw [List.length_append, sign] at short
      omega
  | plain free noRaw => exact ⟨rfl, free, noRaw⟩

/-- The names that are their own identifiers are the words that are no keywords. -/
theorem identifier_eq_self_iff {name : Text} :
    identifier name = name ↔ Word name ∧ name ∉ keywords := by
  have made := identified_identifier name
  constructor
  · intro same
    rw [same] at made
    obtain ⟨same, free, noRaw⟩ := made.of_length_le (sanitized_sanitize name).length_le
    rw [← same] at free noRaw
    have more : sanitize name ≠ ['_'] := fun single =>
      free (mem_reservedWords_iff.mpr (.inr (same.trans single)))
    exact ⟨same ▸ word_sanitize more,
      fun keyword => (mem_words_of_keyword name keyword).elim noRaw free⟩
  · rintro ⟨word, free⟩
    rw [word.sanitized.eq_sanitize] at made
    have noPlace : name ∉ reservedWords := fun there =>
      (mem_reservedWords_iff.mp there).elim (fun place => free (keyword_of_place name place))
        word.more
    exact made.unique (.plain noPlace fun raw => free (keyword_of_rawWord name raw).1)

theorem identifier_usable (name : Text) :
    (∃ k ∈ keywords, k ∉ placeKeywords ∧ identifier name = "r#".toList ++ k) ∨
      (Word (identifier name) ∧ identifier name ∉ keywords) :=
  (identified_identifier name).usable word_sanitize

/-- Every name has a usable identifier: a keyword in raw form, if it is one of those that have such
a form, or else a word that is no keyword. Two names share an identifier exactly when their
sanitised forms are the same, but for the underscore that a word without raw form is given. -/
theorem names_made_usable (name : Text) :
    ((∃ k ∈ keywords, k ∉ placeKeywords ∧ identifier name = "r#".toList ++ k) ∨
      (Word (identifier name) ∧ identifier name ∉ keywords)) ∧
    ∃ s, Sanitized name s ∧ ∀ other t, Sanitized other t →
      (identifier name = identifier other ↔ s = t ∨ Marked s t ∨ Marked t s) := by
  refine ⟨identifier_usable name, sanitize name, sanitized_sanitize name, fun other t h => ?_⟩
  obtain rfl := h.eq_sanitize
  exact (identified_identifier name).eq_iff (identified_identifier other) word_sanitize
    word_sanitize

example : identifier "größe".toList = "gr__e".toList ∧
    identifier "self".toList = identifier "self-".toList := by decide +kernel

end Phrasebook.Accessors
