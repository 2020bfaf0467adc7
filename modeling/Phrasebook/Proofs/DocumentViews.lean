import Phrasebook.Document
import Phrasebook.Proofs.KeyTree.Growth

/-! The leaves of a document are read off its strings and the keys that lead to them, without regard
to the order in which sections are walked. The flat view and the tree view exist for the same
documents, namely those whose leaves are apart, and then they have the same paths. -/
namespace Phrasebook

namespace Document

open KeyTree

mutual

/-- The strings at and below a value, each with the keys that lead to it. -/
def stringsOf : Toml.Value → List (List Text × Text)
  | .string text => [([], text)]
  | .table members => memberStrings members
  | _ => []

def memberStrings : List (Text × Toml.Value) → List (List Text × Text)
  | [] => []
  | (key, v) :: rest =>
    (stringsOf v).map (fun (keys, text) => (key :: keys, text)) ++ memberStrings rest

end

/-- The keys that a path is made of: a section that is marked for it does not count. -/
def countedKeys : List Text → List Text
  | top :: key :: keys => if top = translationsSection then key :: keys else top :: key :: keys
  | keys => keys

/-- What a table declares: every string outside the configuration section, under its dotted path. -/
def declared (table : Toml.Table) : List Leaf :=
  ((memberStrings table).filter fun (keys, _) => keys.head? ≠ some configSection).map
    fun (keys, text) => ⟨dotted (countedKeys keys), text⟩

mutual

theorem valueLeaves_eq (path : Text) : ∀ v : Toml.Value,
    valueLeaves path v = (stringsOf v).map fun (keys, text) => ⟨through path keys, text⟩
  | .string text => by
      simp only [valueLeaves, stringsOf, List.map_cons, List.map_nil, through_nil]
  | .table members => by
      rw [valueLeaves, stringsOf]
      exact memberLeaves_some path members
  | .integer _ | .float _ | .boolean _ | .moment _ | .array _ => by
      simp only [valueLeaves, stringsOf, List.map_nil]

theorem memberLeaves_some (path : Text) : ∀ members : List (Text × Toml.Value),
    memberLeaves (some path) members =
      (memberStrings members).map fun (keys, text) => ⟨through path keys, text⟩
  | [] => by rw [memberLeaves, memberStrings, List.map_nil]
  | (key, v) :: rest => by
      rw [memberLeaves, memberStrings, List.map_append, List.map_map, memberPath,
        valueLeaves_eq _ v, memberLeaves_some path rest]
      simp only [Function.comp_def, through_cons]

end

theorem memberLeaves_none (members : List (Text × Toml.Value)) :
    memberLeaves none members =
      (memberStrings members).map fun (keys, text) => ⟨dotted keys, text⟩ := by
  induction members with
  | nil => rw [memberLeaves, memberStrings, List.map_nil]
  | cons m rest ih =>
      obtain ⟨key, v⟩ := m
      rw [memberLeaves, memberStrings, List.map_append, List.map_map, memberPath, valueLeaves_eq,
        ih]
      simp only [Function.comp_def, dotted_cons]

theorem nonempty_of_mem_memberStrings {members : List (Text × Toml.Value)} {keys : List Text}
    {text : Text} (h : (keys, text) ∈ memberStrings members) : ∃ key rest, keys = key :: rest := by
  induction members with
  | nil =>
      rw [memberStrings] at h
      cases h
  | cons m rest ih =>
      obtain ⟨key, v⟩ := m
      rw [memberStrings] at h
      rcases List.mem_append.mp h with first | later
      · obtain ⟨s, -, same⟩ := List.mem_map.mp first
        cases same
        exact ⟨_, _, rfl⟩
      · exact ih later

theorem declared_singleton (key : Text) (v : Toml.Value) :
    declared [(key, v)] = if key = configSection then [] else
      (stringsOf v).map fun (keys, text) => ⟨dotted (countedKeys (key :: keys)), text⟩ := by
  rw [declared, memberStrings, memberStrings, List.append_nil, List.filter_map]
  by_cases same : key = configSection
  · simp [same, Function.comp_def]
  · simp [same, Function.comp_def]

theorem sectionLeaves_eq (key : Text) (v : Toml.Value) :
    sectionLeaves key v = declared [(key, v)] := by
  rw [declared_singleton]
  unfold sectionLeaves
  by_cases config : key = configSection
  · rw [if_pos config, if_pos config]
  · rw [if_neg config, if_neg config]
    cases v with
    | string text => simp [stringsOf, countedKeys]
    | table members =>
        have counted : ∀ s ∈ memberStrings members, countedKeys (key :: s.1) =
            if key = translationsSection then s.1 else key :: s.1 := by
          intro s hs
          obtain ⟨next, rest, shape⟩ := nonempty_of_mem_memberStrings hs
          rw [shape, countedKeys]
        rw [stringsOf]
        by_cases marked : key = translationsSection
        · simp only [marked, if_true, memberLeaves_none]
          refine List.map_congr_left fun s hs => ?_
          rw [← marked, counted s hs, if_pos marked]
        · simp only [marked, if_false, memberLeaves_some]
          refine List.map_congr_left fun s hs => ?_
          rw [counted s hs, if_neg marked, dotted_cons]
    | integer _ => rfl
    | float _ => rfl
    | boolean _ => rfl
    | moment _ => rfl
    | array _ => rfl

theorem declared_cons (key : Text) (v : Toml.Value) (rest : Toml.Table) :
    declared ((key, v) :: rest) = declared [(key, v)] ++ declared rest := by
  simp only [declared, memberStrings, List.append_nil, List.filter_append, List.map_append]

theorem leaves_eq_declared (d : Document) : d.leaves = declared d.table := by
  obtain ⟨table⟩ := d
  induction table with
  | nil => rfl
  | cons m rest ih =>
      obtain ⟨key, v⟩ := m
      rw [declared_cons, ← sectionLeaves_eq, ← ih, leaves, leaves, List.flatMap_cons]

/-- A flat view and a tree view of the same leaves. -/
structure SameLeaves (leaves : List Leaf) (flat : FlatMap) (tree : KeyTree) : Prop where
  flatPairs : flat.Perm (leaves.map fun l => (l.path, l.text))
  flatKeys : flat.keys.Nodup
  treePaths : tree.paths.Perm flat.keys
  found : ∀ path ∈ flat.keys, tree.find? path = some (entryOf path)

theorem tree_eq_ok_iff {d : Document} {t : KeyTree} :
    d.tree = .ok t ↔ KeyTree.ofPaths (d.leaves.map (·.path)) = .ok t := by
  rw [tree]
  split <;> simp [*]

theorem tree_eq_error_iff {d : Document} {e : Error} :
    d.tree = .error e ↔
      ∃ c, e = .conflict c ∧ KeyTree.ofPaths (d.leaves.map (·.path)) = .error c := by
  rw [tree]
  split <;> simp [*, eq_comm]

theorem flatten_eq_ok_iff {d : Document} {flat : FlatMap} :
    d.flatten = .ok flat ↔ (∃ t, d.tree = .ok t) ∧
      flat = Dictionary.ofList (d.leaves.map fun l => (l.path, l.text)) := by
  rw [flatten, tree]
  split <;> simp [eq_comm]

theorem flatten_eq_error_iff {d : Document} {e : Error} :
    d.flatten = .error e ↔ d.tree = .error e := by
  rw [flatten, tree]
  split <;> simp

theorem tree_isOk_iff (d : Document) :
    (∃ t, d.tree = .ok t) ↔ Apart ((declared d.table).map (·.path)) := by
  simp only [tree_eq_ok_iff, leaves_eq_declared]
  exact ofPaths_ok_iff _

theorem flatten_isOk_iff (d : Document) :
    (∃ flat, d.flatten = .ok flat) ↔ Apart ((declared d.table).map (·.path)) := by
  rw [← tree_isOk_iff]
  simp only [flatten_eq_ok_iff, exists_and_left, exists_eq, and_true]

theorem sameLeaves_of_ok {d : Document} {flat : FlatMap} {t : KeyTree}
    (hflat : d.flatten = .ok flat) (htree : d.tree = .ok t) : SameLeaves (declared d.table) flat t := by
  rw [← leaves_eq_declared]
  have hpaths := tree_eq_ok_iff.mp htree
  have apart : Apart (d.leaves.map (·.path)) := (ofPaths_ok_iff _).mp ⟨t, hpaths⟩
  have distinct : ((d.leaves.map fun l => (l.path, l.text)).map (·.1)).Nodup := by
    rw [List.map_map]
    exact apart.nodup
  obtain ⟨-, rfl⟩ := flatten_eq_ok_iff.mp hflat
  have hpairs := Dictionary.ofList_perm distinct
  have hkeys := hpairs.map (·.1)
  rw [List.map_map] at hkeys
  refine ⟨hpairs, (Dictionary.ordered_ofList _).nodup, ?_, fun path hpath => ?_⟩
  · exact (paths_of_ofPaths hpaths).trans hkeys.symm
  · exact (find?_of_ofPaths hpaths).mpr ⟨hkeys.mem_iff.mp hpath, rfl⟩

theorem SameLeaves.find?_eq_some_iff {leaves : List Leaf} {flat : FlatMap} {t : KeyTree}
    (h : SameLeaves leaves flat t) {key text : Text} :
    flat.find? key = some text ↔ ⟨key, text⟩ ∈ leaves := by
  rw [Dictionary.find?_eq_some_iff h.flatKeys, h.flatPairs.mem_iff, List.mem_map]
  constructor
  · rintro ⟨leaf, there, same⟩
    cases same
    exact there
  · intro there
    exact ⟨_, there, rfl⟩

/-- The flat view exists exactly when the tree view does, and this is when the declared paths are
apart. Both have the declared paths; where one is refused, so is the other, for the same path. -/
theorem views_agree (d : Document) :
    ((∃ flat, d.flatten = .ok flat) ↔ Apart ((declared d.table).map (·.path))) ∧
    ((∃ t, d.tree = .ok t) ↔ Apart ((declared d.table).map (·.path))) ∧
    (∀ flat t, d.flatten = .ok flat → d.tree = .ok t → SameLeaves (declared d.table) flat t) ∧
    (∀ e, d.flatten = .error e ↔ d.tree = .error e) ∧
    (∀ e, d.tree = .error e → ∃ c, e = .conflict c) := by
  refine ⟨flatten_isOk_iff d, tree_isOk_iff d, ?_, ?_, ?_⟩
  · intro flat t hflat htree
    exact sameLeaves_of_ok hflat htree
  · intro e
    exact flatten_eq_error_iff
  · intro e h
    obtain ⟨c, same, -⟩ := tree_eq_error_iff.mp h
    exact ⟨c, same⟩

/-- A section and a marked section that declares `key` besides. -/
def dialogAnd (key : Text) : Document :=
  ⟨[("dialog".toList, .table [("ok".toList, .string "Yes".toList)]),
    ("translations".toList, .table [(key, .string "No".toList)])]⟩

/-- A quoted key may join the section, but not stand in its place. -/
theorem views_agree_dialog :
    (∃ flat t, (dialogAnd "dialog.no".toList).flatten = .ok flat ∧
      (dialogAnd "dialog.no".toList).tree = .ok t ∧
      SameLeaves (declared (dialogAnd "dialog.no".toList).table) flat t) ∧
    (∃ e, (dialogAnd "dialog".toList).tree = .error e ∧ ∃ c, e = .conflict c) :=
  ⟨⟨_, _, rfl, rfl, (views_agree _).2.2.1 _ _ rfl rfl⟩,
    ⟨_, rfl, (views_agree (dialogAnd "dialog".toList)).2.2.2.2 _ rfl⟩⟩

end Document

end Phrasebook
