import Phrasebook.Proofs.Accessors.Generation
import Phrasebook.Proofs.Outcome
import Phrasebook.Proofs.Toml.Spelling

/-! Texts that never mention the configuration section are passed over without being read. This
agrees with reading them as long as the name of the section is written out; a quoted key that spells
it with escapes is not seen, and its document is passed over although it has scope names. -/
namespace Phrasebook.Accessors

/-- Generation goes by what is read in the text: without scope names there is nothing to generate, a
conflict and a collision are errors, and else the file holds what is emitted. -/
structure FollowsReading (text : Text) (d : Document) (path projectDir : Path) (o : Options) :
    Prop where
  skipped : generate text path projectDir o = .ok none ↔ d.scopeNames = none
  conflict : ∀ names e, d.scopeNames = some names → d.tree = .error e →
    generate text path projectDir o = .error (.document e)
  collision : ∀ names tree c, d.scopeNames = some names → d.tree = .ok tree →
    emit o ⟨relativePath path projectDir, names, tree⟩ = .error c →
    generate text path projectDir o = .error (.collision c)
  written : ∀ names tree source, d.scopeNames = some names → d.tree = .ok tree →
    emit o ⟨relativePath path projectDir, names, tree⟩ = .ok source →
    generate text path projectDir o = .ok (some
      ⟨Descriptor.stem ⟨relativePath path projectDir, names, tree⟩ ++ ".rs".toList,
        relativePath path projectDir, source⟩)

theorem follows_of_mention {text : Text} {d : Document} (parsed : Document.read text = .ok d)
    (mentioned : Text.contains configSection text = true) (path projectDir : Path) (o : Options) :
    FollowsReading text d path projectDir o := by
  have generated := generate_of_mention mentioned path projectDir o
  rw [extract_eq parsed] at generated
  refine ⟨⟨fun skipped => ?_, fun named => ?_⟩, fun names e named failed => ?_,
    fun names tree c named built failed => ?_, fun names tree source named built emitted => ?_⟩
  · rw [skipped] at generated
    cases named : d.scopeNames with
    | none => rfl
    | some names =>
        rw [named] at generated
        cases built : d.tree with
        | error e =>
            rw [built] at generated
            cases generated
        | ok tree =>
            rw [built] at generated
            cases emitted : emit o ⟨relativePath path projectDir, names, tree⟩ with
            | error c =>
                simp only [Except.map, emitted] at generated
                cases generated
            | ok source =>
                simp only [Except.map, emitted] at generated
                cases generated
  · rw [generated, named]
  · rw [generated, named, failed]
    rfl
  · rw [generated, named, built]
    simp only [Except.map, failed]
  · rw [generated, named, built]
    simp only [Except.map, emitted]

theorem follows_of_unnamed {text : Text} {d : Document} (parsed : Document.read text = .ok d)
    (unnamed : d.scopeNames = none) (path projectDir : Path) (o : Options) :
    FollowsReading text d path projectDir o := by
  cases mention : Text.contains configSection text with
  | true => exact follows_of_mention parsed mention path projectDir o
  | false =>
      have skipped := generate_of_silence mention path projectDir o
      refine ⟨⟨fun _ => unnamed, fun _ => skipped⟩, ?_, ?_, ?_⟩
      · intro names e named
        cases unnamed.symm.trans named
      · intro names tree c named
        cases unnamed.symm.trans named
      · intro names tree source named
        cases unnamed.symm.trans named

theorem section_of_scopeNames {d : Document} (named : d.scopeNames ≠ none) :
    configSection ∈ Dictionary.keys d.table := by
  refine Dictionary.mem_keys_iff.mpr (Option.ne_none_iff_exists'.mp fun absent => named ?_)
  rw [Document.scopeNames, absent]

theorem configSection_plain : ∀ c ∈ configSection, c ∉ Toml.escapedChars := by
  have all : configSection.all (fun c => decide (c ∉ Toml.escapedChars)) = true := by decide
  exact fun c there => of_decide_eq_true (List.all_eq_true.mp all c there)

/-- Generation follows reading where the section is mentioned or there are no scope names, and only
there. Nothing but a quoted string that spells the section with an escape by code point can hide
scope names from it. -/
theorem generate_follows_reading {text : Text} {table : Toml.Table}
    (parsed : Toml.read text = some table) (path projectDir : Path) (o : Options) :
    (FollowsReading text ⟨table⟩ path projectDir o ↔
      Text.contains configSection text = true ∨ (⟨table⟩ : Document).scopeNames = none) ∧
    (¬ Toml.Escapes text configSection → FollowsReading text ⟨table⟩ path projectDir o) ∧
    (Toml.Escapes text configSection → Toml.HasCodePoint text) := by
  have document : Document.read text = .ok ⟨table⟩ := by rw [Document.read, parsed]
  have follows : Text.contains configSection text = true ∨ (⟨table⟩ : Document).scopeNames = none →
      FollowsReading text ⟨table⟩ path projectDir o := fun h =>
    h.elim (fun mentioned => follows_of_mention document mentioned path projectDir o)
      (fun unnamed => follows_of_unnamed document unnamed path projectDir o)
  refine ⟨⟨fun following => ?_, follows⟩, fun written => follows ?_, fun escaped => ?_⟩
  · cases mention : Text.contains configSection text with
    | true => exact .inl rfl
    | false => exact .inr (following.skipped.mp (generate_of_silence mention path projectDir o))
  · by_cases unnamed : (⟨table⟩ : Document).scopeNames = none
    · exact .inr unnamed
    · have listed := section_of_scopeNames unnamed
      have spelled := (Toml.segmentIn_of_read parsed listed).spelled
      exact .inl (Text.contains_iff.mpr (spelled.resolve_right written))
  · exact Toml.hasCodePoint_of_escapes escaped configSection_plain

/-- The section as an inline table under a quoted key, one of whose fields is written with an
escape. -/
def inlineSection : Text :=
  ("'echoes_config' = \x7b \"generated\\u005fclass_name\" = 'Strings', " ++
    "generated_namespace = 'App' \x7d\ntitle = 'Welcome'\n").toList

theorem generate_follows_reading_inline :
    ∃ table, Toml.read inlineSection = some table ∧
      Text.contains configSection inlineSection = true ∧
      FollowsReading inlineSection ⟨table⟩ "ui.toml".toUTF8.toList [] .default := by
  have readable : (Toml.read inlineSection).isSome := by decide +kernel
  obtain ⟨table, parsed⟩ := Option.isSome_iff_exists.mp readable
  have mentioned : Text.contains configSection inlineSection = true := by decide +kernel
  exact ⟨table, parsed, mentioned,
    (generate_follows_reading parsed "ui.toml".toUTF8.toList [] .default).1.mpr (.inl mentioned)⟩

/-- A document whose section is spelled with an escape. -/
def escapedSection : Text :=
  ("[\"echoes\\u005fconfig\"]\ngenerated_class_name = \"Strings\"\n" ++
    "generated_namespace = \"App\"\n[translations]\ntitle = \"Title\"\n").toList

/-- The document has scope names, its source can be emitted, and nothing is generated from it. -/
theorem escaped_section_passed_over :
    ∃ table d source, Toml.read escapedSection = some table ∧
      (⟨table⟩ : Document).scopeNames = some ⟨"Strings".toList, "App".toList⟩ ∧
      extract escapedSection "strings.toml".toUTF8.toList [] = .ok (some d) ∧
      emit .default d = .ok source ∧
      generate escapedSection "strings.toml".toUTF8.toList [] .default = .ok none ∧
      ¬ FollowsReading escapedSection ⟨table⟩ "strings.toml".toUTF8.toList [] .default := by
  have named : (Toml.read escapedSection).map (fun table => (⟨table⟩ : Document).scopeNames) =
      some (some ⟨"Strings".toList, "App".toList⟩) := by decide +kernel
  obtain ⟨table, parsed, names⟩ := Option.map_eq_some_iff.mp named
  have emits : ((extract escapedSection "strings.toml".toUTF8.toList []).toOption.join.bind
      fun d => (emit .default d).toOption).isSome := by decide +kernel
  obtain ⟨source, hsource⟩ := Option.isSome_iff_exists.mp emits
  obtain ⟨d, extracted, emitted⟩ := Option.bind_eq_some_iff.mp hsource
  have skipped : generate escapedSection "strings.toml".toUTF8.toList [] .default = .ok none :=
    generate_of_silence (by decide +kernel) _ _ _
  refine ⟨table, d, source, parsed, names,
    Outcome.eq_ok_of_toOption (Option.join_eq_some_iff.mp extracted),
    Outcome.eq_ok_of_toOption emitted, skipped, fun following => ?_⟩
  cases names.symm.trans (following.skipped.mp skipped)

end Phrasebook.Accessors
