import Phrasebook.Accessors.Generation

/-! Generation step by step: what is passed over, what is read, and what is emitted. The path of a
document counts for the name that its source tells, and for nothing else. -/
namespace Phrasebook.Accessors

theorem generate_of_silence {text : Text} (silent : Text.contains configSection text = false)
    (path projectDir : Path) (o : Options) : generate text path projectDir o = .ok none := by
  rw [generate, silent]
  rfl

theorem extract_eq {text : Text} {d : Document} (parsed : Document.read text = .ok d)
    (path projectDir : Path) :
    extract text path projectDir = match d.scopeNames with
      | none => .ok none
      | some names => d.tree.map fun tree => some ⟨relativePath path projectDir, names, tree⟩ := by
  simp only [extract, parsed, bind, Except.bind]
  cases d.scopeNames with
  | none => rfl
  | some names => cases d.tree <;> rfl

theorem generate_of_mention {text : Text} (mentioned : Text.contains configSection text = true)
    (path projectDir : Path) (o : Options) :
    generate text path projectDir o =
      match extract text path projectDir with
      | .error e => .error (.document e)
      | .ok none => .ok none
      | .ok (some d) =>
        match emit o d with
        | .error c => .error (.collision c)
        | .ok source => .ok (some ⟨d.stem ++ ".rs".toList, d.relativePath, source⟩) := by
  rw [generate, mentioned]
  rfl

/-- A generated file is named after its document, whose path it tells. -/
theorem named_of_generate {text : Text} {path projectDir : Path} {o : Options}
    {file : GeneratedFile} (h : generate text path projectDir o = .ok (some file)) :
    file.relativePath = relativePath path projectDir ∧
      file.fileName = Resource.stem (Cut.afterLast '/' file.relativePath) ++ ".rs".toList := by
  cases mentions : Text.contains configSection text with
  | false =>
      rw [generate_of_silence mentions] at h
      cases h
  | true =>
      rw [generate_of_mention mentions] at h
      cases parsed : Document.read text with
      | error e =>
          rw [extract, parsed] at h
          cases h
      | ok d =>
          rw [extract_eq parsed] at h
          cases named : d.scopeNames with
          | none =>
              rw [named] at h
              cases h
          | some names =>
              rw [named] at h
              cases built : d.tree with
              | error e =>
                  rw [built] at h
                  cases h
              | ok tree =>
                  rw [built] at h
                  dsimp only [Except.map] at h
                  split at h
                  · cases h
                  · cases h
                    exact ⟨rfl, rfl⟩

/-- Names collide in a tree wherever its document lies. -/
theorem emit_eq (o : Options) (relativePath : Text) (names : ScopeNames) (tree : KeyTree) :
    emit o ⟨relativePath, names, tree⟩ =
      (checkTree names.className true tree).map fun _ => sourceText o ⟨relativePath, names, tree⟩ := by
  rw [emit]
  cases checkTree names.className true tree <;> rfl

/-- What is generated from one text at two paths below two directories: the same, but that a source
tells its own relative path. -/
inductive SameBut (o : Options) (path base path' base' : Path) :
    Except Error (Option GeneratedFile) → Except Error (Option GeneratedFile) → Prop
  | failed (e : Error) : SameBut o path base path' base' (.error e) (.error e)
  | skipped : SameBut o path base path' base' (.ok none) (.ok none)
  | generated {file file' : GeneratedFile} (names : ScopeNames) (tree : KeyTree)
      (made : emit o ⟨relativePath path base, names, tree⟩ = .ok file.source)
      (made' : emit o ⟨relativePath path' base', names, tree⟩ = .ok file'.source)
      (same : relativePath path base = relativePath path' base' → file = file') :
      SameBut o path base path' base' (.ok (some file)) (.ok (some file'))

theorem generate_sameBut (text : Text) (o : Options) (path base path' base' : Path) :
    SameBut o path base path' base' (generate text path base o) (generate text path' base' o) := by
  cases mentions : Text.contains configSection text with
  | false =>
      rw [generate_of_silence mentions, generate_of_silence mentions]
      exact .skipped
  | true =>
      rw [generate_of_mention mentions, generate_of_mention mentions]
      cases parsed : Document.read text with
      | error e =>
          rw [extract, extract, parsed]
          exact .failed _
      | ok d =>
          rw [extract_eq parsed, extract_eq parsed]
          cases d.scopeNames with
          | none => exact .skipped
          | some names =>
              cases d.tree with
              | error e => exact .failed _
              | ok tree =>
                  simp only [Except.map, emit_eq]
                  cases checked : checkTree names.className true tree with
                  | error c => exact .failed _
                  | ok _ =>
                      refine .generated names tree ?_ ?_ fun same => ?_
                      · rw [emit_eq, checked]
                        rfl
                      · rw [emit_eq, checked]
                        rfl
                      · rw [same]

end Phrasebook.Accessors
