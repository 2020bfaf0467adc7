import Phrasebook.Proofs.Accessors.Writer
import Phrasebook.Proofs.KeyTree.Growth

/-! The functions of generated source, as they come to be written, mirror the key tree. There is one
for every entry, in the order of the entries, and where it stands, what it is called and what it
passes on can be told from the path of its entry. -/
namespace Phrasebook

namespace Accessors

/-- A function of the source: the headers of the blocks that it lies in, the outermost first, its
own header and its lines. -/
structure Function where
  around : List Text
  header : Text
  body : List Text
deriving DecidableEq

def isFunction (header : Text) : Bool := "pub fn ".toList.isPrefixOf header

/-- The lines before the next block opens or closes. -/
def nextLines : List Step → List Text
  | .line text :: rest => text :: nextLines rest
  | .itemBreak :: rest => nextLines rest
  | _ => []

/-- The functions that steps open, where some blocks are open already. -/
def functions : List Text → List Step → List Function
  | _, [] => []
  | around, .opening header :: rest =>
    (if isFunction header then [⟨around, header, nextLines rest⟩] else []) ++
      functions (around ++ [header]) rest
  | around, .closing :: rest => functions around.dropLast rest
  | around, .line _ :: rest => functions around rest
  | around, .itemBreak :: rest => functions around rest

/-- The function for a path below some blocks, told by the segments of the path. -/
def accessor (runtime : Text) (around : List Text) (path : Text) : Function :=
  let segments := KeyTree.segmentsOf path
  ⟨around ++ segments.dropLast.map moduleHeader,
    "pub fn ".toList ++ identifier (segments.getLastD []) ++ "() -> ".toList ++ runtime ++
      "::TranslationUnit".toList,
    [runtime ++ "::TranslationUnit::new(&".toList ++
      (List.replicate (segments.length - 1) "super::".toList).flatten ++ "SOURCE, ".toList ++
      Text.quoted path ++ ")".toList]⟩

theorem functions_lines (around texts : List Text) (rest : List Step) :
    functions around (texts.map .line ++ rest) = functions around rest := by
  induction texts with
  | nil => rfl
  | cons text texts ih => exact ih

theorem functions_closing (around : List Text) (header : Text) (rest : List Step) :
    functions (around ++ [header]) (.closing :: rest) = functions around rest := by
  rw [functions, List.dropLast_concat]

theorem isFunction_moduleHeader (name : Text) : isFunction (moduleHeader name) = false := rfl

theorem functions_function {header : Text} (isFn : isFunction header = true)
    (around leading : List Text) (body : Text) (rest : List Step) :
    functions around (.itemBreak :: ((Block.function leading header body).steps ++ rest)) =
      ⟨around, header, [body]⟩ :: functions around rest := by
  rw [Block.steps, functions, List.append_assoc, functions_lines, List.cons_append, functions,
    if_pos isFn]
  exact congrArg (_ :: ·) (functions_closing around header rest)

theorem functions_itemLines (around texts : List Text) (rest : List Step) :
    functions around (.itemBreak :: ((Block.lines texts).steps ++ rest)) =
      functions around rest := by
  rw [functions, Block.steps, functions_lines]

theorem functions_module (around : List Text) (name : Text) (items : List Block)
    (rest : List Step) :
    functions around (.itemBreak :: ((Block.scope [] (moduleHeader name) items).steps ++ rest)) =
      functions (around ++ [moduleHeader name]) (Block.itemSteps items ++ .closing :: rest) := by
  rw [Block.steps, List.map_nil, List.nil_append, List.cons_append, List.append_assoc, functions,
    functions, isFunction_moduleHeader]
  rfl

variable (runtime : Text) (base : List Text)

/-- The headers of the modules of a group, by the names above it. -/
def modulesTo (above : List Text) : List Text := base ++ above.map moduleHeader

theorem modulesTo_concat (above : List Text) (name : Text) :
    modulesTo base above ++ [moduleHeader name] = modulesTo base (above ++ [name]) := by
  rw [modulesTo, modulesTo, List.map_append, List.append_assoc, List.map_singleton]

theorem accessor_dotted {above : List Text} {name : Text} (plain : ∀ s ∈ above ++ [name], '.' ∉ s) :
    accessor runtime base (KeyTree.dotted (above ++ [name])) =
      ⟨modulesTo base above,
        "pub fn ".toList ++ identifier name ++ "() -> ".toList ++ runtime ++
          "::TranslationUnit".toList,
        [runtime ++ "::TranslationUnit::new(&".toList ++
          (List.replicate above.length "super::".toList).flatten ++ "SOURCE, ".toList ++
          Text.quoted (KeyTree.dotted (above ++ [name])) ++ ")".toList]⟩ := by
  have segments : KeyTree.segmentsOf (KeyTree.dotted (above ++ [name])) = above ++ [name] :=
    KeyTree.segmentsOf_dotted (List.append_ne_nil_of_right_ne_nil _ (List.cons_ne_nil _ _)) plain
  simp only [accessor, segments, List.dropLast_concat, List.getLastD_concat, List.length_append,
    List.length_singleton, Nat.add_sub_cancel, modulesTo]

theorem functions_entries {above : List Text} (plain : ∀ s ∈ above, '.' ∉ s)
    {es : List (Text × Entry)}
    (kept : ∀ k e, (k, e) ∈ es → '.' ∉ k ∧ e = ⟨k, KeyTree.dotted (above ++ [k])⟩)
    (rest : List Step) :
    functions (modulesTo base above)
        (Block.itemSteps (entryBlocks runtime above.length es) ++ rest) =
      (es.map (·.2)).map (fun e => accessor runtime base e.fullPath) ++
        functions (modulesTo base above) rest := by
  induction es with
  | nil => rfl
  | cons first es ih =>
      obtain ⟨k, e⟩ := first
      obtain ⟨plainKey, rfl⟩ := kept k e List.mem_cons_self
      have names : ∀ s ∈ above ++ [k], '.' ∉ s :=
        List.forall_mem_append.mpr ⟨plain, List.forall_mem_singleton.mpr plainKey⟩
      have others := ih fun k e there => kept k e (List.mem_cons_of_mem _ there)
      rw [entryBlocks, List.map_cons, Block.itemSteps, List.cons_append, List.append_assoc,
        List.map_cons, List.map_cons, List.cons_append, accessor_dotted runtime base names, ← others]
      exact functions_function rfl _ _ _ _

open KeyTree in
mutual

/-- The functions of a group and of the groups in it are those of its entries. -/
theorem functions_tree (rest : List Step) : ∀ (t : KeyTree) (above : List Text),
    (∀ s ∈ above, '.' ∉ s) → Valid above t →
    functions (modulesTo base above)
        (Block.itemSteps (treeBlocks runtime above.length t) ++ rest) =
      t.allEntries.map (fun e => accessor runtime base e.fullPath) ++
        functions (modulesTo base above) rest
  | .group name es gs, above, plain, valid => by
      have entries : ∀ k e, (k, e) ∈ es → '.' ∉ k ∧ e = ⟨k, dotted (above ++ [k])⟩ :=
        fun k e there => valid.here.entry (Dictionary.find?_of_mem valid.here.entries.nodup there)
      have groups : ∀ k g, (k, g) ∈ gs → '.' ∉ k ∧ Valid (above ++ [k]) g := by
        intro k g there
        have found := Dictionary.find?_of_mem valid.here.groups.nodup there
        exact ⟨(valid.here.group found).1, valid.inner found⟩
      rw [treeBlocks, Block.itemSteps_append, List.append_assoc,
        functions_entries runtime base plain entries, functions_groups rest gs above plain groups,
        allEntries, List.map_append, List.append_assoc]

theorem functions_groups (rest : List Step) : ∀ (gs : List (Text × KeyTree)) (above : List Text),
    (∀ s ∈ above, '.' ∉ s) → (∀ k g, (k, g) ∈ gs → '.' ∉ k ∧ Valid (above ++ [k]) g) →
    functions (modulesTo base above)
        (Block.itemSteps (groupBlocks runtime above.length gs) ++ rest) =
      (allEntriesOf gs).map (fun e => accessor runtime base e.fullPath) ++
        functions (modulesTo base above) rest
  | [], _, _, _ => by
      rw [groupBlocks, Block.itemSteps, allEntriesOf, List.map_nil, List.nil_append,
        List.nil_append]
  | (k, g) :: gs, above, plain, valid => by
      obtain ⟨plainKey, validGroup⟩ := valid k g List.mem_cons_self
      have names : ∀ s ∈ above ++ [k], '.' ∉ s :=
        List.forall_mem_append.mpr ⟨plain, List.forall_mem_singleton.mpr plainKey⟩
      have inside := functions_tree (.closing ::
        (Block.itemSteps (groupBlocks runtime above.length gs) ++ rest)) g (above ++ [k]) names
        validGroup
      have others := functions_groups rest gs above plain fun k g there =>
        valid k g (List.mem_cons_of_mem _ there)
      rw [List.length_append, List.length_singleton, ← modulesTo_concat,
        functions_closing, others] at inside
      rw [groupBlocks, Block.itemSteps, List.cons_append, List.append_assoc, functions_module,
        inside, allEntriesOf, List.map_append, List.append_assoc]

end

theorem functions_nestSteps {inside : List Step} {found : List Function} (names : List Text)
    (around : List Text)
    (h : ∀ rest, functions (modulesTo around names) (inside ++ rest) =
      found ++ functions (modulesTo around names) rest) (rest : List Step) :
    functions around (nestSteps (names.map moduleHeader) inside ++ rest) =
      found ++ functions around rest := by
  induction names generalizing around rest with
  | nil =>
      have inner := h rest
      rwa [modulesTo, List.map_nil, List.append_nil] at inner
  | cons name names ih =>
      have inner := ih (around ++ [moduleHeader name])
        (by simpa only [modulesTo, List.map_cons, List.append_assoc, List.singleton_append] using h)
        (.closing :: rest)
      rw [functions_closing] at inner
      rw [List.map_cons, nestSteps, List.cons_append, List.append_assoc, functions,
        isFunction_moduleHeader]
      exact inner

/-- The function that every class has, which finds a unit by its key. -/
def lookupFunction (runtime : Text) (around : List Text) : Function :=
  ⟨around,
    "pub fn lookup(key: &str) -> ::core::option::Option<".toList ++ runtime ++
      "::TranslationUnit>".toList,
    ["KEYS.iter().copied().find(|k| *k == key).map(|k| ".toList ++ runtime ++
      "::TranslationUnit::new(&SOURCE, k))".toList]⟩

theorem functions_header (o : Options) (d : Descriptor) (around : List Text) (rest : List Step) :
    functions around (Block.itemSteps (headerBlocks o d) ++ rest) =
      lookupFunction o.runtimePath around :: functions around rest := by
  rw [headerBlocks]
  simp only [Block.itemSteps, List.cons_append, List.append_assoc, List.nil_append]
  rw [functions_itemLines, functions_itemLines, functions_itemLines, functions_function rfl]
  rfl

/-- The headers of the modules that lead to the items of a class. -/
def classModules (d : Descriptor) : List Text :=
  (namespaceSegments d.names.enclosing ++ [d.names.className]).map moduleHeader

theorem functions_sourceSteps (o : Options) (d : Descriptor) (valid : KeyTree.Valid [] d.tree) :
    functions [] (sourceSteps o d) = lookupFunction o.runtimePath (classModules d) ::
      d.tree.allEntries.map fun e => accessor o.runtimePath (classModules d) e.fullPath := by
  have inside : ∀ rest, functions (classModules d)
      (Block.itemSteps (headerBlocks o d ++ treeBlocks o.runtimePath 0 d.tree) ++ rest) =
      (lookupFunction o.runtimePath (classModules d) ::
        d.tree.allEntries.map fun e => accessor o.runtimePath (classModules d) e.fullPath) ++
        functions (classModules d) rest := by
    intro rest
    have tree := functions_tree o.runtimePath (classModules d) rest d.tree []
      (fun s hs => (List.not_mem_nil hs).elim) valid
    rw [modulesTo, List.map_nil, List.append_nil] at tree
    rw [Block.itemSteps_append, List.append_assoc, functions_header, List.cons_append]
    exact congrArg _ tree
  have nested := functions_nestSteps _ [] inside []
  rw [List.append_nil, functions, List.append_nil] at nested
  rw [sourceSteps_eq]
  exact nested

/-- Generated source mirrors the tree of its document. A writer puts it down in steps that open
functions and modules and close each of them once, so that the writer is never asked to close more
than is open and ends with nothing open. Besides the look-up of the class, the functions are those
of the entries in their order, each in the modules and with the contents that its path tells. -/
theorem source_mirrors_tree {o : Options} {d : Descriptor} {source : Text} {paths : List Text}
    (built : KeyTree.ofPaths paths = .ok d.tree) (emitted : emit o d = .ok source) :
    (Writer.blank.run (sourceSteps o d)).text = source ∧
    functions [] (sourceSteps o d) = lookupFunction o.runtimePath (classModules d) ::
      d.tree.allEntries.map (fun e => accessor o.runtimePath (classModules d) e.fullPath) ∧
    Balanced (sourceSteps o d) ∧
    (∀ before after, sourceSteps o d = before ++ .closing :: after →
      0 < (Writer.blank.run before).depth) ∧
    (Writer.blank.run (sourceSteps o d)).depth = 0 := by
  have balanced := balanced_sourceSteps o d
  refine ⟨?_, functions_sourceSteps o d (KeyTree.grown_of_ofPaths built).valid, balanced, ?_, ?_⟩
  · rw [run_sourceSteps, emit_eq_ok emitted]
  · intro before after cut
    exact balanced.lt_depth_run cut .blank
  · exact balanced.depth_run .blank

/-- A class with a title and, in a group of it, the text of a button. -/
def buttons : Descriptor where
  relativePath := "ui/buttons.toml".toList
  names := ⟨"Strings".toList, "App".toList⟩
  tree := .group [] [("title".toList, ⟨"title".toList, "title".toList⟩)]
    [("dialog".toList, .group "dialog".toList
      [("ok".toList, ⟨"ok".toList, "dialog.ok".toList⟩)] [])]

theorem source_mirrors_tree_buttons :
    KeyTree.ofPaths ["dialog.ok".toList, "title".toList] = .ok buttons.tree ∧
    ∃ source, emit .default buttons = .ok source ∧
      (Writer.blank.run (sourceSteps .default buttons)).text = source ∧
      functions [] (sourceSteps .default buttons) =
        [lookupFunction "::echoes".toList ["pub mod App".toList, "pub mod Strings".toList],
          ⟨["pub mod App".toList, "pub mod Strings".toList],
            "pub fn title() -> ::echoes::TranslationUnit".toList,
            ["::echoes::TranslationUnit::new(&SOURCE, \"title\")".toList]⟩,
          ⟨["pub mod App".toList, "pub mod Strings".toList, "pub mod dialog".toList],
            "pub fn ok() -> ::echoes::TranslationUnit".toList,
            ["::echoes::TranslationUnit::new(&super::SOURCE, \"dialog.ok\")".toList]⟩] ∧
      (Writer.blank.run (sourceSteps .default buttons)).depth = 0 := by
  have built : KeyTree.ofPaths ["dialog.ok".toList, "title".toList] = .ok buttons.tree := rfl
  have accepted : (emit .default buttons).toOption.isSome = true := by decide +kernel
  obtain ⟨source, found⟩ := Option.isSome_iff_exists.mp accepted
  have emitted := Outcome.eq_ok_of_toOption found
  obtain ⟨written, mirrored, -, -, ended⟩ := source_mirrors_tree built emitted
  refine ⟨built, source, emitted, written, mirrored.trans ?_, ended⟩
  decide +kernel

end Accessors

end Phrasebook
