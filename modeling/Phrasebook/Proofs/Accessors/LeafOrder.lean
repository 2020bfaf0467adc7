import Phrasebook.Proofs.Accessors.Generation
import Phrasebook.Proofs.Accessors.ListedKeys
import Phrasebook.Proofs.KeyTree.Extensionality

/-! A document is its leaves. However they are spread over sections, nested tables and quoted keys,
the views are the same, and the generated source does not even depend on the texts. Only the path
that a conflict is reported for may differ. -/
namespace Phrasebook

namespace Document

open KeyTree

/-- The paths that a table declares, with repetitions. -/
def declaredPaths (d : Document) : List Text := (declared d.table).map (·.path)

/-- Two results that are one value, or are both refused for a conflict. -/
inductive Agree {α : Type} : Except Error α → Except Error α → Prop
  | same (a : α) : Agree (.ok a) (.ok a)
  | refused (c c' : PathConflict) : Agree (.error (.conflict c)) (.error (.conflict c'))

theorem tree_eq_ofPaths (d : Document) :
    d.tree = match KeyTree.ofPaths d.declaredPaths with
      | .ok t => .ok t
      | .error c => .error (.conflict c) := by
  rw [tree, leaves_eq_declared]
  rfl

theorem declaredPaths_perm {d d' : Document}
    (same : (declared d.table).Perm (declared d'.table)) :
    d.declaredPaths.Perm d'.declaredPaths := same.map Leaf.path

theorem tree_agree {d d' : Document} (paths : d.declaredPaths.Perm d'.declaredPaths) :
    Agree d.tree d'.tree := by
  rw [tree_eq_ofPaths, tree_eq_ofPaths]
  cases built : KeyTree.ofPaths d.declaredPaths with
  | ok t =>
      rw [ofPaths_perm paths built]
      exact .same t
  | error c =>
      obtain ⟨c', refused⟩ := ofPaths_error_perm paths built
      rw [refused]
      exact .refused c c'

/-- The flat map of leaves that are apart is the map of every reordering of them. -/
theorem ofList_perm_leaves {leaves leaves' : List Leaf} (same : leaves.Perm leaves')
    (apart : Apart (leaves.map (·.path))) :
    Dictionary.ofList (leaves.map fun l => (l.path, l.text)) =
      Dictionary.ofList (leaves'.map fun l => (l.path, l.text)) := by
  have distinct : ((leaves.map fun l => (l.path, l.text)).map (·.1)).Nodup := by
    rw [List.map_map]
    exact apart.nodup
  have pairs := same.map fun l => (l.path, l.text)
  have maps : (Dictionary.ofList (leaves.map fun l => (l.path, l.text))).Perm
      (Dictionary.ofList (leaves'.map fun l => (l.path, l.text))) :=
    (Dictionary.ofList_perm distinct).trans
      (pairs.trans (Dictionary.ofList_perm ((pairs.map (·.1)).nodup_iff.mp distinct)).symm)
  have ordered := Dictionary.ordered_ofList (leaves.map fun l => (l.path, l.text))
  have ordered' := Dictionary.ordered_ofList (leaves'.map fun l => (l.path, l.text))
  refine ordered.ext ordered' fun key => Option.ext fun text => ?_
  rw [Dictionary.find?_eq_some_iff ordered.nodup, Dictionary.find?_eq_some_iff ordered'.nodup,
    maps.mem_iff]

theorem flatten_agree {d d' : Document} (same : (declared d.table).Perm (declared d'.table)) :
    Agree d.flatten d'.flatten := by
  have trees := tree_agree (declaredPaths_perm same)
  generalize htree : d.tree = t, htree' : d'.tree = t' at trees
  cases trees with
  | same t =>
      have apart := (tree_isOk_iff d).mp ⟨t, htree⟩
      have flat := flatten_eq_ok_iff.mpr ⟨⟨t, htree⟩, rfl⟩
      have flat' := flatten_eq_ok_iff.mpr ⟨⟨t, htree'⟩, rfl⟩
      rw [leaves_eq_declared] at flat flat'
      rw [flat, flat', ofList_perm_leaves same apart]
      exact .same _
  | refused c c' =>
      rw [flatten_eq_error_iff.mpr htree, flatten_eq_error_iff.mpr htree']
      exact .refused c c'

end Document

namespace Accessors

/-- What is extracted depends on the scope names and the paths of a document. -/
theorem extract_agree {text text' : Text} {d d' : Document} (parsed : Document.read text = .ok d)
    (parsed' : Document.read text' = .ok d') (paths : d.declaredPaths.Perm d'.declaredPaths)
    (names : d.scopeNames = d'.scopeNames) (path projectDir : Path) :
    Document.Agree (extract text path projectDir) (extract text' path projectDir) := by
  rw [extract_eq parsed, extract_eq parsed', ← names]
  cases d.scopeNames with
  | none => exact .same none
  | some names =>
      have trees := Document.tree_agree paths
      generalize d.tree = t, d'.tree = t' at trees
      cases trees with
      | same t => exact .same _
      | refused c c' => exact .refused c c'

/-- Documents with the same leaves have the same views, and those with the same paths have the same
tree and the same generated source, or all of them are refused for a conflict. -/
theorem leaves_determine_output :
    (∀ d d' : Document, (Document.declared d.table).Perm (Document.declared d'.table) →
      Document.Agree d.flatten d'.flatten ∧ Document.Agree d.tree d'.tree) ∧
    (∀ d d' : Document, d.declaredPaths.Perm d'.declaredPaths → Document.Agree d.tree d'.tree) ∧
    ∀ (text text' : Text) (d d' : Document) (path projectDir : Path) (o : Options),
      Document.read text = .ok d → Document.read text' = .ok d' →
      Text.contains configSection text = true → Text.contains configSection text' = true →
      d.declaredPaths.Perm d'.declaredPaths → d.scopeNames = d'.scopeNames →
      generate text path projectDir o = generate text' path projectDir o ∨
        ∃ c c', generate text path projectDir o = .error (.document (.conflict c)) ∧
          generate text' path projectDir o = .error (.document (.conflict c')) := by
  refine ⟨fun d d' same => ?_, fun d d' paths => Document.tree_agree paths, ?_⟩
  · exact ⟨Document.flatten_agree same, Document.tree_agree (Document.declaredPaths_perm same)⟩
  · intro text text' d d' path projectDir o parsed parsed' mentioned mentioned' paths names
    have extracted := extract_agree parsed parsed' paths names path projectDir
    rw [generate_of_mention mentioned, generate_of_mention mentioned']
    generalize extract text path projectDir = found, extract text' path projectDir = found'
      at extracted
    cases extracted with
    | same a => exact .inl rfl
    | refused c c' => exact .inr ⟨c, c', rfl, rfl⟩

/-- A document with a dialog section, in which a number and an empty table stand beside the text. -/
def spread : Text :=
  "[echoes_config]\ngenerated_class_name = 'Strings'\ngenerated_namespace = 'App'\n".toList ++
    "[dialog]\nok = 'Yes'\ntries = 3\n[dialog.later]\n[translations]\nback = 'Back'\n".toList

/-- The same paths in one section, by a quoted key. -/
def gathered (ok : Text) : Text :=
  "[echoes_config]\ngenerated_class_name = 'Strings'\ngenerated_namespace = 'App'\n".toList ++
    "[translations]\nback = 'Back'\n'dialog.ok' = '".toList ++ ok ++ "'\n".toList

theorem read_of_declared (text : Text) (leaves : List Leaf) (names : ScopeNames)
    (h : ((Toml.read text).map fun table =>
      (Document.declared table, (⟨table⟩ : Document).scopeNames)) = some (leaves, some names)) :
    ∃ d, Document.read text = .ok d ∧ Document.declared d.table = leaves ∧
      d.scopeNames = some names := by
  obtain ⟨table, parsed, same⟩ := Option.map_eq_some_iff.mp h
  obtain ⟨declares, named⟩ := Prod.mk.inj same
  exact ⟨⟨table⟩, by rw [Document.read, parsed], declares, named⟩

/-- The two ways of writing agree in their views, and another text does not show in the source. -/
theorem leaves_determine_output_dialog :
    ∃ d d' d'', Document.read spread = .ok d ∧ Document.read (gathered "Yes".toList) = .ok d' ∧
      Document.read (gathered "No".toList) = .ok d'' ∧
      (Document.declared d.table).Perm (Document.declared d'.table) ∧
      Document.Agree d.flatten d'.flatten ∧ Document.Agree d.tree d'.tree ∧
      Text.contains configSection spread = true ∧
      Text.contains configSection (gathered "No".toList) = true ∧
      d.declaredPaths.Perm d''.declaredPaths ∧ d.scopeNames = d''.scopeNames ∧
      Document.Agree d.tree d''.tree ∧
      (generate spread [] [] .default = generate (gathered "No".toList) [] [] .default ∨
        ∃ c c', generate spread [] [] .default = .error (.document (.conflict c)) ∧
          generate (gathered "No".toList) [] [] .default = .error (.document (.conflict c'))) := by
  obtain ⟨d, parsed, leaves, names⟩ := read_of_declared spread
    [⟨"dialog.ok".toList, "Yes".toList⟩, ⟨"back".toList, "Back".toList⟩]
    ⟨"Strings".toList, "App".toList⟩ (by decide +kernel)
  obtain ⟨d', parsed', leaves', -⟩ := read_of_declared (gathered "Yes".toList)
    [⟨"back".toList, "Back".toList⟩, ⟨"dialog.ok".toList, "Yes".toList⟩]
    ⟨"Strings".toList, "App".toList⟩ (by decide +kernel)
  obtain ⟨d'', parsed'', leaves'', names''⟩ := read_of_declared (gathered "No".toList)
    [⟨"back".toList, "Back".toList⟩, ⟨"dialog.ok".toList, "No".toList⟩]
    ⟨"Strings".toList, "App".toList⟩ (by decide +kernel)
  have same : (Document.declared d.table).Perm (Document.declared d'.table) := by
    rw [leaves, leaves']
    exact .swap _ _ []
  have paths : d.declaredPaths.Perm d''.declaredPaths := by
    rw [Document.declaredPaths, Document.declaredPaths, leaves, leaves'']
    exact .swap _ _ []
  have mentioned : Text.contains configSection spread = true := by decide +kernel
  have mentioned'' : Text.contains configSection (gathered "No".toList) = true := by
    decide +kernel
  have sameNames : d.scopeNames = d''.scopeNames := names.trans names''.symm
  obtain ⟨flat, tree⟩ := leaves_determine_output.1 d d' same
  exact ⟨d, d', d'', parsed, parsed', parsed'', same, flat, tree, mentioned, mentioned'', paths,
    sameNames, leaves_determine_output.2.1 d d'' paths,
    leaves_determine_output.2.2 spread (gathered "No".toList) d d'' [] [] .default parsed parsed''
      mentioned mentioned'' paths sameNames⟩

end Accessors

end Phrasebook
