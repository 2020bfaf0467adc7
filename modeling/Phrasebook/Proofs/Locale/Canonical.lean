import Phrasebook.Proofs.Locale.Subtags

/-! Canonical identifiers. Each reader of a subtag gives the one canonical form of what it accepts,
so whatever is read is canonical, and a canonical identifier is read back from its name. -/
namespace Phrasebook.Locale

/-- A fact about characters and their case holds of all when it holds of those of ASCII, and of any
that is no letter and no digit and has no other case. -/
theorem case_forall {P : Char → Prop} (ascii : ∀ n < 0x80, P (Char.ofNat n))
    (other : ∀ c : Char, c.isLower = false → c.isUpper = false → c.isDigit = false →
      c.toLower = c → c.toUpper = c → P c) (c : Char) : P c := by
  by_cases low : c.toNat < 0x80
  · exact Text.ascii_forall ascii low
  · have above : ∀ d : Char, d.toNat < 0x80 → ¬ c.val ≤ d.val := by
      intro d hd within
      have within : c.toNat ≤ d.toNat := UInt32.le_iff_toNat_le.mp within
      omega
    apply other
    · exact Bool.and_eq_false_iff.mpr (.inr (decide_eq_false (above 'z' (by decide))))
    · exact decide_eq_false fun within => above 'Z' (by decide) within.2
    · exact Bool.and_eq_false_iff.mpr (.inr (decide_eq_false (above '9' (by decide))))
    · exact dif_neg fun within => above 'Z' (by decide) within.2
    · exact dif_neg fun within => above 'z' (by decide) within.2

/-- What is made lower or upper case is so if it is a letter, and stays a digit if it is one; what
was made lower case before does not count; and what is so already stays as it is. -/
theorem case_laws (c : Char) :
    (c.toLower.isLower = c.isAlpha ∧ c.toUpper.isUpper = c.isAlpha) ∧
    (c.toLower.isDigit = c.isDigit ∧ c.toUpper.isDigit = c.isDigit) ∧
    (c.toLower.toLower = c.toLower ∧ c.toLower.toUpper = c.toUpper) ∧
    (c.isLower = true ∨ c.isDigit = true → c.toLower = c) ∧
    (c.isUpper = true ∨ c.isDigit = true → c.toUpper = c) := by
  revert c
  apply case_forall
  · decide +kernel
  · intro c lower upper _ low up
    have letter : c.isAlpha = false := Bool.or_eq_false_iff.mpr ⟨upper, lower⟩
    rw [low, up]
    exact ⟨⟨lower.trans letter.symm, upper.trans letter.symm⟩, ⟨rfl, rfl⟩, ⟨low, rfl⟩,
      fun _ => rfl, fun _ => rfl⟩

theorem isLower_toLower (c : Char) : c.toLower.isLower = c.isAlpha := (case_laws c).1.1

theorem isUpper_toUpper (c : Char) : c.toUpper.isUpper = c.isAlpha := (case_laws c).1.2

theorem isDigit_toLower (c : Char) : c.toLower.isDigit = c.isDigit := (case_laws c).2.1.1

theorem isDigit_toUpper (c : Char) : c.toUpper.isDigit = c.isDigit := (case_laws c).2.1.2

theorem toLower_toLower (c : Char) : c.toLower.toLower = c.toLower := (case_laws c).2.2.1.1

theorem toUpper_toLower (c : Char) : c.toLower.toUpper = c.toUpper := (case_laws c).2.2.1.2

theorem toLower_eq_self {c : Char} (h : c.isLower = true ∨ c.isDigit = true) : c.toLower = c :=
  (case_laws c).2.2.2.1 h

theorem toUpper_eq_self {c : Char} (h : c.isUpper = true ∨ c.isDigit = true) : c.toUpper = c :=
  (case_laws c).2.2.2.2 h

/-- Two or three lower case letters. -/
def LanguageTag (s : Text) : Prop :=
  (s.length = 2 ∨ s.length = 3) ∧ ∀ c ∈ s, c.isLower = true

/-- An upper case letter and three lower case ones. -/
def ScriptTag (s : Text) : Prop :=
  ∃ c rest, s = c :: rest ∧ c.isUpper = true ∧ rest.length = 3 ∧ ∀ d ∈ rest, d.isLower = true

/-- Two upper case letters or three digits. -/
def RegionTag (s : Text) : Prop :=
  (s.length = 2 ∧ ∀ c ∈ s, c.isUpper = true) ∨ (s.length = 3 ∧ ∀ c ∈ s, c.isDigit = true)

/-- Five to eight lower case letters and digits, or four that start with a digit. -/
def VariantTag (s : Text) : Prop :=
  (∀ c ∈ s, c.isLower = true ∨ c.isDigit = true) ∧
    ((5 ≤ s.length ∧ s.length ≤ 8) ∨
      ∃ c rest, s = c :: rest ∧ c.isDigit = true ∧ rest.length = 3)

/-- The form in which identifiers are kept, one for each. -/
structure Canonical (l : Locale) : Prop where
  language : LanguageTag l.language
  script : ∀ s ∈ l.script, ScriptTag s
  region : ∀ r ∈ l.region, RegionTag r
  variants : ∀ v ∈ l.variants, VariantTag v
  sorted : l.variants.Pairwise (· < ·)

theorem lower_lower (s : Text) : lower (lower s) = lower s := by
  rw [lower, lower, List.map_map]
  exact List.map_congr_left fun c _ => toLower_toLower c

theorem upper_lower (s : Text) : upper (lower s) = upper s := by
  rw [upper, lower, List.map_map]
  exact List.map_congr_left fun c _ => toUpper_toLower c

theorem title_lower (s : Text) : title (lower s) = title s := by
  cases s with
  | nil => rfl
  | cons c rest => exact congrArg₂ List.cons (toUpper_toLower c) (lower_lower rest)

theorem all_isAlpha_iff_lower {s : Text} :
    s.all Char.isAlpha = true ↔ ∀ c ∈ lower s, c.isLower = true := by
  simp only [lower, List.forall_mem_map, isLower_toLower, List.all_eq_true]

theorem all_isAlpha_iff_upper {s : Text} :
    s.all Char.isAlpha = true ↔ ∀ c ∈ upper s, c.isUpper = true := by
  simp only [upper, List.forall_mem_map, isUpper_toUpper, List.all_eq_true]

theorem all_isDigit_iff_upper {s : Text} :
    s.all Char.isDigit = true ↔ ∀ c ∈ upper s, c.isDigit = true := by
  simp only [upper, List.forall_mem_map, isDigit_toUpper, List.all_eq_true]

theorem all_isAlphanum_iff_lower {s : Text} : s.all Char.isAlphanum = true ↔
    ∀ c ∈ lower s, c.isLower = true ∨ c.isDigit = true := by
  simp only [lower, List.forall_mem_map, isLower_toLower, isDigit_toLower, List.all_eq_true,
    Char.isAlphanum, Bool.or_eq_true]

theorem lower_of_isLower {s : Text} (h : ∀ c ∈ s, c.isLower = true) : lower s = s :=
  (List.map_congr_left fun c hc => toLower_eq_self (.inl (h c hc))).trans (List.map_id s)

theorem language?_eq_some_iff {s t : Text} :
    language? s = some t ↔ lower s = t ∧ LanguageTag t := by
  rw [language?, Option.ite_none_right_eq_some, Option.some.injEq, and_comm]
  apply and_congr_right
  rintro rfl
  rw [LanguageTag, lower, List.length_map, ← lower, all_isAlpha_iff_lower]

theorem script?_eq_some_iff {s t : Text} : script? s = some t ↔ title s = t ∧ ScriptTag t := by
  rw [script?, Option.ite_none_right_eq_some, Option.some.injEq, and_comm]
  apply and_congr_right
  rintro rfl
  cases s with
  | nil => simp [ScriptTag, title]
  | cons c rest =>
      have length : (lower rest).length = rest.length := List.length_map _
      have letters : (c :: rest).all Char.isAlpha = true ↔
          c.toUpper.isUpper = true ∧ ∀ d ∈ lower rest, d.isLower = true := by
        rw [List.all_cons, Bool.and_eq_true, all_isAlpha_iff_lower, isUpper_toUpper]
      rw [letters, ScriptTag, title]
      constructor
      · rintro ⟨four, upper, lowers⟩
        exact ⟨c.toUpper, lower rest, rfl, upper, length.trans (Nat.succ.inj four), lowers⟩
      · rintro ⟨d, others, shape, upper, three, lowers⟩
        cases shape
        exact ⟨congrArg Nat.succ (length.symm.trans three), upper, lowers⟩

theorem region?_eq_some_iff {s t : Text} : region? s = some t ↔ upper s = t ∧ RegionTag t := by
  have same : (upper s).length = s.length := List.length_map _
  have digits : s.all Char.isDigit = true → upper s = s := fun h =>
    (List.map_congr_left fun c hc => toUpper_eq_self (.inr (List.all_eq_true.mp h c hc))).trans
      (List.map_id s)
  rw [region?]
  constructor
  · intro h
    split at h
    · rename_i letters
      cases h
      refine ⟨rfl, .inl ?_⟩
      rwa [same, ← all_isAlpha_iff_upper]
    · split at h <;> cases h
      rename_i three
      refine ⟨digits three.2, .inr ⟨three.1, ?_⟩⟩
      exact List.all_eq_true.mp three.2
  · rintro ⟨rfl, tag⟩
    rw [RegionTag, same, ← all_isAlpha_iff_upper, ← all_isDigit_iff_upper] at tag
    rcases tag with letters | three
    · exact if_pos letters
    · have notTwo : ¬ (s.length = 2 ∧ s.all Char.isAlpha = true) := fun two => by omega
      rw [if_neg notTwo, if_pos three, digits three.2]

theorem variant?_eq_some_iff {s t : Text} : variant? s = some t ↔ lower s = t ∧ VariantTag t := by
  have same : (lower s).length = s.length := List.length_map _
  have digitFirst : s.length = 4 ∧ (s.take 1).all Char.isDigit = true ↔
      ∃ c rest, lower s = c :: rest ∧ c.isDigit = true ∧ rest.length = 3 := by
    cases s with
    | nil => simp [lower]
    | cons c rest => simp [lower, isDigit_toLower, and_comm]
  have shape : (s.all Char.isAlphanum = true ∧ ((5 ≤ s.length ∧ s.length ≤ 8) ∨
      (s.length = 4 ∧ (s.take 1).all Char.isDigit = true))) ↔ VariantTag (lower s) := by
    rw [VariantTag, same, ← all_isAlphanum_iff_lower, digitFirst]
  rw [variant?, Option.ite_none_right_eq_some, Option.some.injEq, shape, and_comm]
  apply and_congr_right
  rintro rfl
  exact Iff.rfl

/-! Variants are kept in order, each once. -/

theorem mem_of_addVariant {v w : Text} {variants after : List Text}
    (h : addVariant v variants = some after) (there : w ∈ after) : w = v ∨ w ∈ variants := by
  induction variants generalizing after with
  | nil =>
      cases h
      exact .inl (List.mem_singleton.mp there)
  | cons first rest ih =>
      rw [addVariant] at h
      split at h
      · cases h
        exact List.mem_cons.mp there
      · split at h
        · cases h
        · obtain ⟨behind, added, rfl⟩ := Option.map_eq_some_iff.mp h
          rcases List.mem_cons.mp there with rfl | later
          · exact .inr List.mem_cons_self
          · exact (ih added later).imp_right (List.mem_cons_of_mem first)

theorem forall_addVariant {P : Text → Prop} {v : Text} {variants after : List Text}
    (here : P v) (before : ∀ w ∈ variants, P w) (h : addVariant v variants = some after) :
    ∀ w ∈ after, P w := by
  intro w there
  rcases mem_of_addVariant h there with rfl | earlier
  · exact here
  · exact before w earlier

theorem sorted_addVariant {v : Text} {variants after : List Text}
    (sorted : variants.Pairwise (· < ·)) (h : addVariant v variants = some after) :
    after.Pairwise (· < ·) := by
  induction variants generalizing after with
  | nil =>
      cases h
      exact List.pairwise_singleton _ _
  | cons w rest ih =>
      obtain ⟨first, later⟩ := List.pairwise_cons.mp sorted
      rw [addVariant] at h
      split at h
      · rename_i less
        cases h
        refine List.pairwise_cons.mpr ⟨?_, sorted⟩
        exact List.forall_mem_cons.mpr ⟨less, fun u hu => List.lt_trans less (first u hu)⟩
      · rename_i notLess
        split at h
        · cases h
        · rename_i other
          obtain ⟨behind, added, rfl⟩ := Option.map_eq_some_iff.mp h
          have greater : w < v := by
            rcases Std.lt_trichotomy v w with less | same | greater
            · exact (notLess less).elim
            · exact (other same).elim
            · exact greater
          exact List.pairwise_cons.mpr ⟨forall_addVariant greater first added, ih later added⟩

theorem addVariants_invariant {tags variants after : List Text}
    (shaped : ∀ v ∈ variants, VariantTag v) (sorted : variants.Pairwise (· < ·))
    (h : addVariants tags variants = some after) :
    (∀ v ∈ after, VariantTag v) ∧ after.Pairwise (· < ·) := by
  induction tags generalizing variants with
  | nil =>
      cases h
      exact ⟨shaped, sorted⟩
  | cons tag rest ih =>
      obtain ⟨v, hv, h⟩ := Option.bind_eq_some_iff.mp h
      obtain ⟨more, added, h⟩ := Option.bind_eq_some_iff.mp h
      have here := (variant?_eq_some_iff.mp hv).2
      exact ih (forall_addVariant here shaped added) (sorted_addVariant sorted added) h

theorem addVariant_last {v : Text} {variants : List Text} (greatest : ∀ w ∈ variants, w < v) :
    addVariant v variants = some (variants ++ [v]) := by
  induction variants with
  | nil => rfl
  | cons w rest ih =>
      obtain ⟨first, later⟩ := List.forall_mem_cons.mp greatest
      have notLess : ¬ v < w := List.lt_asymm first
      have other : v ≠ w := by
        rintro rfl
        exact List.lt_irrefl _ first
      rw [addVariant, if_neg notLess, if_neg other, ih later]
      rfl

theorem variant?_of_tag {v : Text} (tag : VariantTag v) : variant? v = some v := by
  refine variant?_eq_some_iff.mpr ⟨?_, tag⟩
  exact (List.map_congr_left fun c hc => toLower_eq_self (tag.1 c hc)).trans (List.map_id v)

theorem addVariants_sorted {tags before : List Text} (shaped : ∀ v ∈ tags, VariantTag v)
    (sorted : (before ++ tags).Pairwise (· < ·)) :
    addVariants tags before = some (before ++ tags) := by
  induction tags generalizing before with
  | nil => rw [addVariants, List.append_nil]
  | cons v rest ih =>
      obtain ⟨here, later⟩ := List.forall_mem_cons.mp shaped
      have greatest : ∀ w ∈ before, w < v := fun w hw =>
        (List.pairwise_append.mp sorted).2.2 w hw v List.mem_cons_self
      have again : before ++ v :: rest = (before ++ [v]) ++ rest := by
        rw [List.append_assoc, List.singleton_append]
      rw [again] at sorted ⊢
      rw [addVariants, variant?_of_tag here]
      change (addVariant v before).bind _ = _
      rw [addVariant_last greatest]
      exact ih later sorted

/-! What is read is canonical. -/

theorem Canonical.readRegion {id l : Locale} (canonical : id.Canonical) {tags : List Text}
    (h : readRegion id tags = some l) : l.Canonical := by
  rw [readRegion.eq_def] at h
  split at h
  · cases h
    exact canonical
  · split at h
    · rename_i r hr
      obtain ⟨vs, added, rfl⟩ := Option.map_eq_some_iff.mp h
      obtain ⟨shaped, sorted⟩ := addVariants_invariant (List.forall_mem_nil _) .nil added
      refine ⟨canonical.language, canonical.script, ?_, shaped, sorted⟩
      intro r' same
      cases same
      exact (region?_eq_some_iff.mp hr).2
    · obtain ⟨vs, added, rfl⟩ := Option.map_eq_some_iff.mp h
      obtain ⟨shaped, sorted⟩ := addVariants_invariant (List.forall_mem_nil _) .nil added
      exact ⟨canonical.language, canonical.script, canonical.region, shaped, sorted⟩

theorem Canonical.readScript {id l : Locale} (canonical : id.Canonical) {tags : List Text}
    (h : readScript id tags = some l) : l.Canonical := by
  rw [readScript.eq_def] at h
  split at h
  · cases h
    exact canonical
  · split at h
    · rename_i s hs
      have scripted : ({ id with script := some s } : Locale).Canonical := by
        refine ⟨canonical.language, ?_, canonical.region, canonical.variants, canonical.sorted⟩
        intro s' same
        cases same
        exact (script?_eq_some_iff.mp hs).2
      exact scripted.readRegion h
    · exact canonical.readRegion h

theorem canonical_bare {language : Text} (tag : LanguageTag language) :
    (⟨language, none, none, []⟩ : Locale).Canonical := ⟨tag, nofun, nofun, nofun, .nil⟩

theorem ofSubtags_eq_ok_iff {tags : List Text} {l : Locale} :
    ofSubtags tags = .ok l ↔ ∃ tag rest language, tags = tag :: rest ∧
      language? tag = some language ∧ readScript ⟨language, none, none, []⟩ rest = some l := by
  cases tags with
  | nil => simp [ofSubtags]
  | cons tag rest =>
      rw [ofSubtags]
      cases hl : language? tag with
      | none => simp [hl]
      | some language =>
          cases hr : readScript ⟨language, none, none, []⟩ rest <;> simp [hl, hr]

/-- The subtags that a written identifier is read by. -/
def subtagsOf (input : Text) : List Text :=
  Text.segments '-' ((Text.trim input).map fun c => if c = '_' then '-' else c)

theorem parse_eq (input : Text) : parse input = match ofSubtags (subtagsOf input) with
    | .ok id => .ok id
    | .error fault => .error ⟨input, fault⟩ := rfl

theorem parse_eq_ok_iff {input : Text} {l : Locale} :
    parse input = .ok l ↔ ofSubtags (subtagsOf input) = .ok l := by
  rw [parse_eq]
  cases ofSubtags (subtagsOf input) <;> simp

theorem canonical_of_parse {input : Text} {l : Locale} (h : parse input = .ok l) :
    l.Canonical := by
  obtain ⟨tag, rest, language, -, hl, hr⟩ := ofSubtags_eq_ok_iff.mp (parse_eq_ok_iff.mp h)
  exact (canonical_bare (language?_eq_some_iff.mp hl).2).readScript hr

/-! What is canonical is read back. -/

theorem region?_of_variant {v : Text} (tag : VariantTag v) : region? v = none := by
  have long : 4 ≤ v.length := by
    rcases tag.2 with long | ⟨c, rest, rfl, -, three⟩
    · omega
    · simp [three]
  have two : ¬ (v.length = 2 ∧ v.all Char.isAlpha = true) := fun h => by omega
  have three : ¬ (v.length = 3 ∧ v.all Char.isDigit = true) := fun h => by omega
  rw [region?, if_neg two, if_neg three]

theorem script?_of_variant {v : Text} (tag : VariantTag v) : script? v = none := by
  refine if_neg ?_
  rintro ⟨four, letters⟩
  rcases tag.2 with long | ⟨c, rest, rfl, digit, -⟩
  · omega
  · have letter : c.isAlpha = true := List.all_eq_true.mp letters c List.mem_cons_self
    have apart : c.isDigit = true → ¬ c.isAlpha = true :=
      case_forall (P := fun c => c.isDigit = true → ¬ c.isAlpha = true) (by decide +kernel)
        (fun c _ _ notDigit _ _ digit => by simp [notDigit] at digit) c
    exact apart digit letter

theorem script?_of_region {r : Text} (tag : RegionTag r) : script? r = none := by
  have short : r.length ≠ 4 := by
    rcases tag with two | three <;> omega
  exact if_neg fun accepted => short accepted.1

theorem readScript_of_none {id : Locale} {tags : List Text}
    (other : ∀ tag ∈ tags.head?, script? tag = none) : readScript id tags = readRegion id tags := by
  cases tags with
  | nil => rfl
  | cons tag rest => rw [readScript, other tag rfl]

theorem readRegion_subtags {l : Locale} (canonical : l.Canonical) :
    readRegion ⟨l.language, l.script, none, []⟩ (l.region.toList ++ l.variants) = some l := by
  have added : addVariants l.variants [] = some ([] ++ l.variants) :=
    addVariants_sorted canonical.variants canonical.sorted
  obtain ⟨language, script, region, variants⟩ := l
  rw [List.nil_append] at added
  cases region with
  | some r =>
      have uppers := canonical.region r rfl
      have read : region? r = some r := by
        refine region?_eq_some_iff.mpr ⟨?_, uppers⟩
        refine (List.map_congr_left fun c hc => ?_).trans (List.map_id r)
        rcases uppers with ⟨-, letters⟩ | ⟨-, digits⟩
        · exact toUpper_eq_self (.inl (letters c hc))
        · exact toUpper_eq_self (.inr (digits c hc))
      rw [Option.toList_some, List.singleton_append, Locale.readRegion, read]
      change (addVariants variants []).map _ = _
      rw [added]
      rfl
  | none =>
      rw [Option.toList_none, List.nil_append]
      cases variants with
      | nil => rfl
      | cons v rest =>
          have other := region?_of_variant (canonical.variants v List.mem_cons_self)
          rw [Locale.readRegion, other]
          change (addVariants (v :: rest) []).map _ = _
          rw [added]
          rfl

theorem readScript_subtags {l : Locale} (canonical : l.Canonical) :
    readScript ⟨l.language, none, none, []⟩ (l.script.toList ++ l.region.toList ++ l.variants) =
      some l := by
  rw [List.append_assoc]
  have behind := readRegion_subtags canonical
  cases script : l.script with
  | some s =>
      obtain ⟨c, rest, shape, upper, three, lowers⟩ := canonical.script s script
      have read : script? s = some s := by
        refine script?_eq_some_iff.mpr ⟨?_, canonical.script s script⟩
        rw [shape, title, toUpper_eq_self (.inl upper), lower_of_isLower lowers]
      rw [Option.toList_some, List.singleton_append, Locale.readScript, read]
      rwa [script] at behind
  | none =>
      rw [script] at behind
      rw [Option.toList_none, List.nil_append, readScript_of_none, behind]
      -- What comes next is a region or a variant, and neither looks like a script.
      intro tag next
      cases region : l.region with
      | some r =>
          rw [region] at next
          cases next
          exact script?_of_region (canonical.region tag region)
      | none =>
          rw [region] at next
          exact script?_of_variant (canonical.variants tag (List.mem_of_mem_head? next))

theorem ofSubtags_subtags {l : Locale} (canonical : l.Canonical) :
    ofSubtags l.subtags = .ok l := by
  have read : language? l.language = some l.language :=
    language?_eq_some_iff.mpr ⟨lower_of_isLower canonical.language.2, canonical.language⟩
  exact ofSubtags_eq_ok_iff.mpr ⟨_, _, _, rfl, read, readScript_subtags canonical⟩

theorem Canonical.written {l : Locale} (canonical : l.Canonical) : l.Written := by
  have isAlphanum_of_isLower : ∀ c : Char, c.isLower = true → c.isAlphanum = true := fun c lower =>
    isAlphanum_of_isAlpha c (Bool.or_eq_true_iff.mpr (.inr lower))
  have isAlphanum_of_isUpper : ∀ c : Char, c.isUpper = true → c.isAlphanum = true := fun c upper =>
    isAlphanum_of_isAlpha c (Bool.or_eq_true_iff.mpr (.inl upper))
  refine written_iff.mpr ⟨?language, ?script, ?region, ?variants⟩
  case language => exact fun c hc => isAlphanum_of_isLower c (canonical.language.2 c hc)
  case script =>
    intro s hs
    obtain ⟨c, rest, rfl, upper, -, lowers⟩ := canonical.script s hs
    exact List.forall_mem_cons.mpr
      ⟨isAlphanum_of_isUpper c upper, fun d hd => isAlphanum_of_isLower d (lowers d hd)⟩
  case region =>
    intro r hr c hc
    rcases canonical.region r hr with ⟨-, letters⟩ | ⟨-, digits⟩
    · exact isAlphanum_of_isUpper c (letters c hc)
    · exact isAlphanum_of_isDigit c (digits c hc)
  case variants =>
    intro v hv c hc
    rcases (canonical.variants v hv).1 c hc with letter | digit
    · exact isAlphanum_of_isLower c letter
    · exact isAlphanum_of_isDigit c digit

/-- Whatever is read as a locale, its subtags are letters and digits. -/
theorem written_of_parse {input : Text} {l : Locale} (h : parse input = .ok l) : l.Written :=
  (canonical_of_parse h).written

/-- A name has nothing to trim and no underscores, and its hyphens part its subtags. -/
theorem subtagsOf_name {l : Locale} (written : l.Written) : subtagsOf l.name = l.subtags := by
  have plain : ∀ c ∈ l.name, Text.isBlank c = false ∧ c ≠ '_' := by
    have letters : ∀ c : Char, c.isAlphanum = true → Text.isBlank c = false ∧ c ≠ '_' := fun c h =>
      Text.ascii_forall (P := fun c => c.isAlphanum = true → Text.isBlank c = false ∧ c ≠ '_')
        (by decide +kernel) (ascii_of_isAlphanum h) h
    intro c hc
    rcases written.name c hc with letter | rfl
    · exact letters c letter
    · decide
  have noHyphen : ∀ tag ∈ l.subtags, '-' ∉ tag := by
    intro tag ht inside
    exact absurd (written tag ht '-' inside) (by decide)
  have untrimmed : Text.trim l.name = l.name := by
    have kept : ∀ s : Text, (∀ c ∈ s, Text.isBlank c = false) → s.dropWhile Text.isBlank = s := by
      intro s counts
      cases s with
      | nil => rfl
      | cons c rest =>
          exact List.dropWhile_cons_of_neg (ne_true_of_eq_false (counts c List.mem_cons_self))
    have backwards : ∀ c ∈ l.name.reverse, Text.isBlank c = false := fun c hc =>
      (plain c (List.mem_reverse.mp hc)).1
    rw [Text.trim, Cut.trim, kept _ fun c hc => (plain c hc).1, kept _ backwards,
      List.reverse_reverse]
  have hyphenated : l.name.map (fun c => if c = '_' then '-' else c) = l.name :=
    (List.map_congr_left fun c hc => if_neg (plain c hc).2).trans (List.map_id _)
  rw [subtagsOf, untrimmed, hyphenated]
  exact List.splitOn_intercalate '-' noHyphen (List.cons_ne_nil _ _)

theorem Canonical.parse_name {l : Locale} (canonical : l.Canonical) : parse l.name = .ok l := by
  rw [parse_eq_ok_iff, subtagsOf_name canonical.written]
  exact ofSubtags_subtags canonical

theorem Canonical.name_injective {l l' : Locale} (canonical : l.Canonical)
    (canonical' : l'.Canonical) (same : l.name = l'.name) : l = l' := by
  have read := canonical.parse_name
  rw [same, canonical'.parse_name] at read
  exact (Except.ok.inj read).symm

end Phrasebook.Locale
