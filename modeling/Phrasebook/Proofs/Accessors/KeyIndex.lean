import Phrasebook.Proofs.Accessors.Mirror
import Phrasebook.Proofs.KeyTree.Requests
import Phrasebook.Proofs.Text.ByteOrder

/-! The table of keys as an index of the tree. In the steps in which source is written there is one
such table. Its literals, read back, list every path of the tree once in the order of their bytes,
and they are the literals that the functions pass on. -/
namespace Phrasebook.Accessors

/-- A text without the given sign, which has to be the last one. -/
def withoutLast? (sign : Char) (s : Text) : Option Text :=
  if s.getLast? = some sign then some s.dropLast else none

theorem withoutLast?_concat (sign : Char) (s : Text) : withoutLast? sign (s ++ [sign]) = some s := by
  simp [withoutLast?]

/-- The literals on the rows of a table, up to the line that closes it. -/
def rowLiterals : List Text → Option (List Text)
  | [] => none
  | line :: rest =>
    if unindented line = "];".toList then some []
    else do return (← withoutLast? ',' (unindented line)) :: (← rowLiterals rest)

/-- The literals of the table that the first line opens. -/
def tableLiterals : List Text → Option (List Text)
  | [] => none
  | line :: rest =>
    if line = "pub const KEYS: &[&str] = &[];".toList then some []
    else if line = "pub const KEYS: &[&str] = &[".toList then rowLiterals rest
    else none

/-- The tables of keys that steps put down, by the literals in them. -/
def keyTables : List Step → List (List Text)
  | [] => []
  | .line text :: rest => (tableLiterals (text :: nextLines rest)).toList ++ keyTables rest
  | _ :: rest => keyTables rest

/-- The literal that a function passes on together with the source: from the first quote of its one
line to the bracket at the end. -/
def Function.passes? (runtime : Text) (f : Function) : Option Text :=
  match f.body with
  | [line] => do
    let call ← line.dropPrefix? (runtime ++ "::TranslationUnit::new(&".toList)
    withoutLast? ')' (call.dropWhile (· ≠ '"'))
  | _ => none

theorem passes?_accessor (runtime : Text) (around : List Text) (path : Text) :
    (accessor runtime around path).passes? runtime = some (Text.quoted path) := by
  generalize segments : (KeyTree.segmentsOf path).length - 1 = depth
  have noQuote : ∀ c ∈ (List.replicate depth "super::".toList).flatten ++ "SOURCE, ".toList,
      decide (c ≠ '"') = true := by
    have inStep : "super::".toList.all (fun c => decide (c ≠ '"')) = true := by decide
    have inName : "SOURCE, ".toList.all (fun c => decide (c ≠ '"')) = true := by decide
    intro c there
    rcases List.mem_append.mp there with above | source
    · obtain ⟨step, hstep, inside⟩ := List.mem_flatten.mp above
      rw [(List.mem_replicate.mp hstep).2] at inside
      exact List.all_eq_true.mp inStep c inside
    · exact List.all_eq_true.mp inName c source
  have call : (accessor runtime around path).body =
      [(runtime ++ "::TranslationUnit::new(&".toList) ++
        (((List.replicate depth "super::".toList).flatten ++ "SOURCE, ".toList) ++
          (Text.quoted path ++ [')']))] := by
    rw [← segments]
    simp [accessor]
  have afterCall : ((runtime ++ "::TranslationUnit::new(&".toList) ++
      (((List.replicate depth "super::".toList).flatten ++ "SOURCE, ".toList) ++
        (Text.quoted path ++ [')']))).dropPrefix? (runtime ++ "::TranslationUnit::new(&".toList) =
      some (((List.replicate depth "super::".toList).flatten ++ "SOURCE, ".toList) ++
        (Text.quoted path ++ [')'])) :=
    List.dropPrefix?_eq_some_iff.mpr ⟨_, rfl, beq_self_eq_true _⟩
  have literal : (Text.quoted path ++ [')']).dropWhile (fun c => decide (c ≠ '"')) =
      Text.quoted path ++ [')'] := rfl
  rw [Function.passes?, call]
  simp only [afterCall, Option.bind_eq_bind, Option.bind_some,
    List.dropWhile_append_of_pos noQuote, literal, withoutLast?_concat]

/-- The line starts a table of keys. -/
def Opens (line : Text) : Prop :=
  line = "pub const KEYS: &[&str] = &[];".toList ∨ line = "pub const KEYS: &[&str] = &[".toList

instance (line : Text) : Decidable (Opens line) :=
  inferInstanceAs (Decidable (_ ∨ _))

theorem tableLiterals_of_not_opens {line : Text} (h : ¬ Opens line) (rest : List Text) :
    tableLiterals (line :: rest) = none := by
  obtain ⟨notEmpty, notStart⟩ := not_or.mp h
  rw [tableLiterals, if_neg notEmpty, if_neg notStart]

theorem not_opens_of_take {line : Text} (start : Text) (begins : line.take start.length = start)
    (few : start.length ≤ 11) (differs : start ≠ "pub const K".toList.take start.length) :
    ¬ Opens line := by
  intro opens
  have started : ∃ rest, line = "pub const K".toList ++ rest := by
    rcases opens with rfl | rfl
    · exact ⟨"EYS: &[&str] = &[];".toList, rfl⟩
    · exact ⟨"EYS: &[&str] = &[".toList, rfl⟩
  obtain ⟨rest, rfl⟩ := started
  exact differs (begins.symm.trans (List.take_append_of_le_length few))

theorem not_opens_of_bracket (front : Text) : ¬ Opens (front ++ [')']) := by
  intro opens
  have ends : (front ++ [')']).getLast? = some ')' := List.getLast?_concat
  rcases opens with same | same <;> rw [same] at ends <;> revert ends <;> decide

theorem keyTables_itemBreak (rest : List Step) :
    keyTables (.itemBreak :: rest) = keyTables rest := rfl

theorem keyTables_opening (header : Text) (rest : List Step) :
    keyTables (.opening header :: rest) = keyTables rest := rfl

theorem keyTables_closing (rest : List Step) : keyTables (.closing :: rest) = keyTables rest := rfl

theorem keyTables_line {text : Text} (h : ¬ Opens text) (rest : List Step) :
    keyTables (.line text :: rest) = keyTables rest := by
  rw [keyTables, tableLiterals_of_not_opens h]
  rfl

theorem keyTables_quiet {steps : List Step} (quiet : ∀ text, .line text ∈ steps → ¬ Opens text)
    (rest : List Step) : keyTables (steps ++ rest) = keyTables rest := by
  induction steps with
  | nil => rfl
  | cons step steps ih =>
      have further := ih fun text there => quiet text (List.mem_cons_of_mem _ there)
      cases step with
      | line text =>
          rw [List.cons_append, keyTables_line (quiet text List.mem_cons_self), further]
      | itemBreak => exact further
      | opening header => exact further
      | closing => exact further

theorem nextLines_lines (texts : List Text) (rest : List Step) :
    nextLines (texts.map .line ++ rest) = texts ++ nextLines rest := by
  induction texts with
  | nil => rfl
  | cons text texts ih => exact congrArg (text :: ·) ih

theorem rowLiterals_rows (keys : List Text) (rest : List Text) :
    rowLiterals (keys.map row ++ "];".toList :: rest) = some (keys.map Text.quoted) := by
  induction keys with
  | nil => rfl
  | cons key keys ih =>
      have literal : unindented (row key) = Text.quoted key ++ [','] := rfl
      have opens : Text.quoted key ++ [','] ≠ "];".toList := fun h => by cases h
      rw [List.map_cons, List.cons_append, rowLiterals, literal, if_neg opens,
        withoutLast?_concat, ih]
      rfl

theorem keyTables_keysLines (keys : List Text) (rest : List Step) :
    keyTables ((keysLines keys).map .line ++ rest) = keys.map Text.quoted :: keyTables rest := by
  cases keys with
  | nil => rfl
  | cons key keys =>
      rw [keysLines_eq (List.cons_ne_nil key keys)]
      generalize key :: keys = listed
      have table : tableLiterals ("pub const KEYS: &[&str] = &[".toList ::
          nextLines ((listed.map row ++ ["];".toList]).map .line ++ rest)) =
          some (listed.map Text.quoted) := by
        rw [nextLines_lines, List.append_assoc]
        exact rowLiterals_rows listed _
      have rows : ∀ text, Step.line text ∈ (listed.map row ++ ["];".toList]).map .line →
          ¬ Opens text := by
        intro text there
        obtain ⟨line, hline, same⟩ := List.mem_map.mp there
        cases same
        rcases List.mem_append.mp hline with inside | last
        · obtain ⟨key, -, rfl⟩ := List.mem_map.mp inside
          exact not_opens_of_take [' '] rfl (by decide) (by decide)
        · rw [List.mem_singleton.mp last]
          decide
      rw [List.map_cons, List.cons_append, keyTables, table, keyTables_quiet rows]
      rfl

mutual

theorem calls_treeBlocks (runtime : Text) : ∀ (t : KeyTree) (depth : Nat) (text : Text),
    .line text ∈ Block.itemSteps (treeBlocks runtime depth t) → ∃ front, text = front ++ [')']
  | .group _ es gs, depth, text, there => by
      rw [treeBlocks, Block.itemSteps_append, List.mem_append] at there
      rcases there with own | inner
      · clear calls_treeBlocks calls_groupBlocks
        induction es with
        | nil => simp [entryBlocks, Block.itemSteps] at own
        | cons first es ih =>
            simp only [entryBlocks, List.map_cons, entryBlock, Block.itemSteps, Block.steps,
              List.map_nil, List.nil_append, List.mem_cons, List.cons_append, reduceCtorEq,
              false_or, Step.line.injEq] at own
            rcases own with rfl | later
            · exact ⟨_, rfl⟩
            · exact ih later
      · exact calls_groupBlocks runtime gs depth text inner

theorem calls_groupBlocks (runtime : Text) :
    ∀ (gs : List (Text × KeyTree)) (depth : Nat) (text : Text),
    .line text ∈ Block.itemSteps (groupBlocks runtime depth gs) → ∃ front, text = front ++ [')']
  | [], depth, text, there => by simp [groupBlocks, Block.itemSteps] at there
  | (name, t) :: rest, depth, text, there => by
      simp only [groupBlocks, Block.itemSteps, Block.steps, List.map_nil, List.nil_append,
        List.mem_cons, List.mem_append, List.cons_append, reduceCtorEq, false_or,
        List.not_mem_nil, or_false] at there
      rcases there with inside | others
      · exact calls_treeBlocks runtime t (depth + 1) text inside
      · exact calls_groupBlocks runtime rest depth text others

end

theorem keyTables_header (o : Options) (d : Descriptor) (rest : List Step) :
    keyTables (Block.itemSteps (headerBlocks o d) ++ rest) =
      (sortedKeys d.tree).map Text.quoted :: keyTables rest := by
  have file : ¬ Opens ("pub const FILE: &str = ".toList ++ Text.quoted d.relativePath ++
      ";".toList) :=
    not_opens_of_take "pub const F".toList rfl (by decide) (by decide)
  have source : ¬ Opens ("pub static SOURCE: ".toList ++ o.runtimePath ++
      "::TranslationSource =".toList) :=
    not_opens_of_take "pub static ".toList rfl (by decide) (by decide)
  have made : ¬ Opens (Block.indentStep ++ o.runtimePath ++ "::TranslationSource::new(&".toList ++
      o.resourcesPath ++ ", FILE);".toList) :=
    not_opens_of_take [' '] rfl (by decide) (by decide)
  have comment : ¬ Opens
      "/// Unit for a full dotted key, or \x60None\x60 when the document has no such key.".toList :=
    not_opens_of_take ['/'] rfl (by decide) (by decide)
  have call : ¬ Opens ("KEYS.iter().copied().find(|k| *k == key).map(|k| ".toList ++
      o.runtimePath ++ "::TranslationUnit::new(&SOURCE, k))".toList) :=
    not_opens_of_take ['K'] rfl (by decide) (by decide)
  -- Only the steps are regrouped below, not the texts of their lines.
  rw [headerBlocks]
  generalize "pub const FILE: &str = ".toList ++ _ ++ _ = fileLine at file ⊢
  generalize "pub static SOURCE: ".toList ++ _ ++ _ = sourceLine at source ⊢
  generalize Block.indentStep ++ _ ++ _ ++ _ ++ _ = madeLine at made ⊢
  generalize "KEYS.iter().copied().find(|k| *k == key).map(|k| ".toList ++ _ ++ _ = callLine
    at call ⊢
  simp only [Block.itemSteps, Block.steps, List.map_cons, List.map_nil, List.cons_append,
    List.nil_append, List.append_assoc, keyTables_itemBreak, keyTables_opening, keyTables_closing,
    keyTables_line file, keyTables_line source, keyTables_line made, keyTables_line comment,
    keyTables_line call, keyTables_keysLines]

theorem keyTables_nestSteps {inside : List Step} {found : List (List Text)} (headers : List Text)
    (h : ∀ rest, keyTables (inside ++ rest) = found ++ keyTables rest) (rest : List Step) :
    keyTables (nestSteps headers inside ++ rest) = found ++ keyTables rest := by
  induction headers generalizing rest with
  | nil => exact h rest
  | cons header headers ih =>
      rw [nestSteps, List.cons_append, keyTables_opening, List.append_assoc, ih]
      rfl

theorem keyTables_sourceSteps (o : Options) (d : Descriptor) :
    keyTables (sourceSteps o d) = [(sortedKeys d.tree).map Text.quoted] := by
  have comment : ¬ Opens ("// @generated by echoes-gen from ".toList ++ d.relativePath ++
      ". Do not edit.".toList) :=
    not_opens_of_take ['/'] rfl (by decide) (by decide)
  have calls : ∀ text, .line text ∈ Block.itemSteps (treeBlocks o.runtimePath 0 d.tree) →
      ¬ Opens text := by
    intro text there
    obtain ⟨front, rfl⟩ := calls_treeBlocks o.runtimePath d.tree 0 text there
    exact not_opens_of_bracket front
  have inside : ∀ rest, keyTables
      (Block.itemSteps (headerBlocks o d ++ treeBlocks o.runtimePath 0 d.tree) ++ rest) =
      [(sortedKeys d.tree).map Text.quoted] ++ keyTables rest := by
    intro rest
    rw [Block.itemSteps_append, List.append_assoc, keyTables_header, keyTables_quiet calls]
    rfl
  have nested := keyTables_nestSteps
    ((namespaceSegments d.names.enclosing ++ [d.names.className]).map moduleHeader) inside []
  rw [List.append_nil, keyTables, List.append_nil] at nested
  rw [sourceSteps_eq, keyTables_line comment, keyTables_itemBreak, keyTables_line (by decide), nested]

/-- The table of keys of emitted source is an index of the tree. It is the only one that is written,
its literals read back as every path of the tree once by increasing bytes, and they are what the
functions of the entries pass on. However a key is spelled, no literal has a bare quote or a line
break in it. -/
theorem keys_table_indexes_tree {d : Descriptor} {paths : List Text}
    (built : d.tree = KeyTree.root.insertEach paths) {o : Options} {source : Text}
    (emitted : emit o d = .ok source) :
    ∃ literals keys accessors,
      (Writer.blank.run (sourceSteps o d)).text = source ∧
      keyTables (sourceSteps o d) = [literals] ∧
      HasKeys source keys ∧
      literals.map Text.readLiteral = keys.map (fun key => some (key, [])) ∧
      keys.Pairwise (fun a b => Utf8.encode a < Utf8.encode b) ∧
      keys.Perm d.tree.paths ∧
      functions [] (sourceSteps o d) =
        lookupFunction o.runtimePath (classModules d) :: accessors ∧
      (accessors.map (·.passes? o.runtimePath)).Perm (literals.map some) ∧
      ∀ literal ∈ literals, ∃ inside, literal = '"' :: inside ++ ['"'] ∧ Text.Enclosed inside := by
  have represents : KeyTree.Represents d.tree (KeyTree.root.accepted paths) := by
    rw [built]
    exact KeyTree.represents_of_ofPaths (KeyTree.ofPaths_accepted paths)
  have listed : (sortedKeys d.tree).Perm d.tree.paths := Sorting.sort_perm _ _
  refine ⟨(sortedKeys d.tree).map Text.quoted, sortedKeys d.tree, _, ?_,
    keyTables_sourceSteps o d, hasKeys_of_emit emitted, ?_,
    Text.pairwise_sorted represents.once, listed,
    functions_sourceSteps o d represents.shape, ?_, ?_⟩
  · rw [run_sourceSteps, emit_eq_ok emitted]
  · rw [List.map_map]
    refine List.map_congr_left fun key _ => ?_
    have readBack := Text.readLiteral_quoted key []
    rwa [List.append_nil] at readBack
  · have passed : (d.tree.allEntries.map fun e =>
        accessor o.runtimePath (classModules d) e.fullPath).map (·.passes? o.runtimePath) =
        (d.tree.paths.map Text.quoted).map some := by
      rw [KeyTree.paths, List.map_map, List.map_map, List.map_map]
      exact List.map_congr_left fun e _ => passes?_accessor _ (classModules d) _
    rw [passed]
    exact ((listed.map _).map _).symm
  · intro literal there
    obtain ⟨key, -, rfl⟩ := List.mem_map.mp there
    exact ⟨Text.quoteBody key, rfl, Text.enclosed_quoteBody key⟩

/-- Names with signs before the dot, with a quote and a line break, and from far up. -/
def oddNames : Descriptor where
  relativePath := "odd.toml".toList
  names := ⟨"Odd".toList, "App".toList⟩
  tree := KeyTree.root.insertEach ["a.b".toList, "a-b".toList, "say \"hi\"\n".toList, "ß".toList,
    "a.\\".toList, "a.b".toList]

theorem keys_table_indexes_tree_oddNames :
    oddNames.tree = KeyTree.root.insertEach ["a.b".toList, "a-b".toList,
      "say \"hi\"\n".toList, "ß".toList, "a.\\".toList, "a.b".toList] ∧
    oddNames.tree.paths = ["a-b".toList, "say \"hi\"\n".toList, "ß".toList, "a.\\".toList,
      "a.b".toList] ∧
    ∃ source keys, emit .default oddNames = .ok source ∧
      keyTables (sourceSteps .default oddNames) =
        [["\"a-b\"".toList, "\"a.\\\\\"".toList, "\"a.b\"".toList,
          "\"say \\\"hi\\\"\\n\"".toList, "\"ß\"".toList]] ∧
      HasKeys source keys ∧ keys.Pairwise (fun a b => Utf8.encode a < Utf8.encode b) ∧
      keys.Perm oddNames.tree.paths := by
  have accepted : (emit .default oddNames).toOption.isSome = true := by decide +kernel
  obtain ⟨source, found⟩ := Option.isSome_iff_exists.mp accepted
  have emitted := Outcome.eq_ok_of_toOption found
  obtain ⟨literals, keys, -, -, -, listed, -, increasing, all, -⟩ :=
    keys_table_indexes_tree (d := oddNames) rfl emitted
  exact ⟨rfl, by decide +kernel, source, keys, emitted, by decide +kernel, listed, increasing, all⟩

end Phrasebook.Accessors
