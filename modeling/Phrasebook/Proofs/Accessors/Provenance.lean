import Phrasebook.Proofs.Accessors.Lexemes
import Phrasebook.Proofs.Accessors.Writer
import Phrasebook.Proofs.KeyTree.Scopes
import Phrasebook.Proofs.Settings.ItemPath
import Phrasebook.Proofs.Text.Segments

/-! Where the text of generated source comes from. Every line is put together from fixed text, from
identifiers made for names, and from literals that hold a key or the path of the document, so data
is never read as code. The first line alone holds the path as it is: a path of one line stays in its
comment, and any other path breaks out of it. -/
namespace Phrasebook.Accessors

open Piece (written meant)

/-- What the first line tells, behind its slashes. -/
def originNote (d : Descriptor) : Text :=
  " @generated by echoes-gen from ".toList ++ d.relativePath ++ ". Do not edit.".toList

/-- What stands before the items of a class and the modules around it. -/
def preamble (d : Descriptor) : List Piece :=
  [.comment (originNote d), .fixed "\n#[allow(non_snake_case, dead_code)]\n".toList]

/-- What the comment of the look-up tells, behind two of its slashes. -/
def lookupNote : Text :=
  "/ Unit for a full dotted key, or \x60None\x60 when the document has no such key.".toList

/-- The lines that depend on nothing but the options. -/
def optionLines (o : Options) : List Text :=
  let runtime := o.runtimePath
  ["\x7d".toList, "pub static SOURCE: ".toList ++ runtime ++ "::TranslationSource =".toList,
    Block.indentStep ++ runtime ++ "::TranslationSource::new(&".toList ++ o.resourcesPath ++
      ", FILE);".toList,
    "pub const KEYS: &[&str] = &[];".toList, "pub const KEYS: &[&str] = &[".toList, "];".toList,
    "pub fn lookup(key: &str) -> ::core::option::Option<".toList ++ runtime ++
      "::TranslationUnit> \x7b".toList,
    "KEYS.iter().copied().find(|k| *k == key).map(|k| ".toList ++ runtime ++
      "::TranslationUnit::new(&SOURCE, k))".toList]

/-- The lines of source without their indentation, by the pieces that they are put together from. A
key or the path of the document stands in a literal, and a name is told by its identifier. -/
inductive LineOf (o : Options) (d : Descriptor) : List Piece → Prop where
  | options {text : Text} (there : text ∈ optionLines o) : LineOf o d [.fixed (text ++ ['\n'])]
  | note : LineOf o d [.comment lookupNote]
  | file : LineOf o d
      [.fixed "pub const FILE: &str =".toList, .literal d.relativePath, .fixed ";\n".toList]
  | row {key : Text} (there : key ∈ d.tree.paths) :
    LineOf o d [.fixed "   ".toList, .literal key, .fixed ",\n".toList]
  | outerModule {name : Text}
    (there : name ∈ namespaceSegments d.names.enclosing ++ [d.names.className]) :
    LineOf o d [.fixed "pub mod ".toList, .named name, .fixed " \x7b\n".toList]
  | groupModule {scope : List Text × KeyTree} {name : Text} (listed : scope ∈ d.tree.scopes [])
    (there : name ∈ scope.2.groups.keys) :
    LineOf o d [.fixed "pub mod ".toList, .named name, .fixed " \x7b\n".toList]
  | function {scope : List Text × KeyTree} {name : Text} (listed : scope ∈ d.tree.scopes [])
    (there : name ∈ scope.2.entries.keys) :
    LineOf o d [.fixed "pub fn ".toList, .named name,
      .fixed ("() -> ".toList ++ o.runtimePath ++ "::TranslationUnit \x7b\n".toList)]
  | call {scope : List Text × KeyTree} {name : Text} {e : Entry} (listed : scope ∈ d.tree.scopes [])
    (there : (name, e) ∈ scope.2.entries) :
    LineOf o d [.fixed (o.runtimePath ++ "::TranslationUnit::new(&".toList ++
        (List.replicate scope.1.length "super::".toList).flatten ++ "SOURCE,".toList),
      .literal e.fullPath, .fixed ")\n".toList]

/-- A line as it stands in the source, blank or indented. -/
inductive SourceLine (o : Options) (d : Descriptor) : List Piece → Prop where
  | blank : SourceLine o d [.fixed ['\n']]
  | indented {pieces : List Piece} (depth : Nat) (known : LineOf o d pieces) :
    SourceLine o d (.fixed (Block.indent depth) :: pieces)

theorem written_append (pieces more : List Piece) :
    written (pieces ++ more) = written pieces ++ written more := List.flatMap_append

theorem written_cons (p : Piece) (pieces : List Piece) :
    written (p :: pieces) = p.text ++ written pieces := List.flatMap_cons

theorem written_named (before after name : Text) :
    written [.fixed before, .named name, .fixed after] = before ++ identifier name ++ after := by
  simp only [written, List.flatMap_cons, List.flatMap_nil, Piece.text, List.append_nil,
    List.append_assoc]

theorem written_literal (before after value : Text) :
    written [.fixed before, .literal value, .fixed after] =
      before ++ [' '] ++ Text.quoted value ++ after := by
  simp only [written, List.flatMap_cons, List.flatMap_nil, Piece.text, List.append_nil,
    List.append_assoc, List.cons_append, List.nil_append]

section Telling

variable (o : Options) (d : Descriptor)

/-- The text is one of the lines. -/
def Told (text : Text) : Prop := ∃ pieces, LineOf o d pieces ∧ written pieces = text ++ ['\n']

/-- A step that puts down one of the lines, or none. -/
inductive Step.Tells : Step → Prop where
  | itemBreak : Tells .itemBreak
  | line {text : Text} (told : Told o d text) : Tells (.line text)
  | opening {header : Text} (told : Told o d (header ++ " \x7b".toList)) : Tells (.opening header)
  | closing : Tells .closing

def Block.Tells (b : Block) : Prop := ∀ s ∈ b.steps, s.Tells o d

variable {o d}

theorem told_of_options (i : Nat) {text : Text} (line : (optionLines o)[i]? = some text) :
    Told o d text := ⟨_, .options (List.mem_of_getElem? line), List.append_nil _⟩

theorem Step.Tells.take {step : Step} (tells : step.Tells o d) (w : Writer) :
    ∃ lines : List (List Piece), (∀ line ∈ lines, SourceLine o d line) ∧
      (w.take step).text = w.text ++ written lines.flatten := by
  have single : ∀ {depth text}, Told o d text →
      ∃ lines : List (List Piece), (∀ line ∈ lines, SourceLine o d line) ∧
        w.text ++ Block.line depth text = w.text ++ written lines.flatten := by
    rintro depth text ⟨pieces, known, same⟩
    refine ⟨[.fixed (Block.indent depth) :: pieces],
      List.forall_mem_singleton.mpr (.indented depth known), ?_⟩
    rw [List.flatten_singleton, written_cons, same, Block.line, List.append_assoc (_ : Text)]
    rfl
  cases tells with
  | itemBreak =>
      by_cases quiet : (w.atStart || w.text.isEmpty) = true
      · exact ⟨[], List.forall_mem_nil _, (if_pos quiet).trans (List.append_nil _).symm⟩
      · exact ⟨[[.fixed ['\n']]], List.forall_mem_singleton.mpr .blank, if_neg quiet⟩
  | line told => exact single told
  | opening told => exact single told
  | closing => exact single (told_of_options 0 rfl)

theorem Writer.run_tells (w : Writer) {steps : List Step} (tells : ∀ s ∈ steps, s.Tells o d) :
    ∃ lines : List (List Piece), (∀ line ∈ lines, SourceLine o d line) ∧
      (w.run steps).text = w.text ++ written lines.flatten := by
  induction steps generalizing w with
  | nil => exact ⟨[], List.forall_mem_nil _, (List.append_nil _).symm⟩
  | cons s steps ih =>
      obtain ⟨here, later⟩ := List.forall_mem_cons.mp tells
      obtain ⟨first, known, taken⟩ := here.take w
      obtain ⟨others, known', added⟩ := ih (w.take s) later
      refine ⟨first ++ others, List.forall_mem_append.mpr ⟨known, known'⟩, ?_⟩
      rw [Writer.run, added, taken, List.append_assoc, List.flatten_append, written_append]

theorem tells_lines {texts : List Text} (told : ∀ text ∈ texts, Told o d text) :
    ∀ s ∈ texts.map Step.line, s.Tells o d :=
  List.forall_mem_map.mpr fun text there => .line (told text there)

theorem tells_itemSteps {items : List Block} (tells : ∀ b ∈ items, b.Tells o d) :
    ∀ s ∈ Block.itemSteps items, s.Tells o d := by
  induction items with
  | nil => exact nofun
  | cons item rest ih =>
      obtain ⟨here, later⟩ := List.forall_mem_cons.mp tells
      rw [Block.itemSteps]
      exact List.forall_mem_cons.mpr ⟨.itemBreak, List.forall_mem_append.mpr ⟨here, ih later⟩⟩

namespace Block.Tells

theorem lines {texts : List Text} (told : ∀ text ∈ texts, Told o d text) :
    (Block.lines texts).Tells o d := by
  rw [Block.Tells, Block.steps]
  exact tells_lines told

theorem function {leading : List Text} {header body : Text}
    (before : ∀ text ∈ leading, Told o d text) (opens : Told o d (header ++ " \x7b".toList))
    (inside : Told o d body) : (Block.function leading header body).Tells o d := by
  rw [Block.Tells, Block.steps]
  exact List.forall_mem_append.mpr ⟨tells_lines before, List.forall_mem_cons.mpr
    ⟨.opening opens, List.forall_mem_cons.mpr
      ⟨.line inside, List.forall_mem_singleton.mpr .closing⟩⟩⟩

theorem scope {leading : List Text} {header : Text} {items : List Block}
    (before : ∀ text ∈ leading, Told o d text) (opens : Told o d (header ++ " \x7b".toList))
    (inside : ∀ b ∈ items, b.Tells o d) : (Block.scope leading header items).Tells o d := by
  rw [Block.Tells, Block.steps]
  have ending := List.forall_mem_append.mpr
    ⟨tells_itemSteps inside, List.forall_mem_singleton.mpr (.closing : Step.Tells o d _)⟩
  exact List.forall_mem_append.mpr
    ⟨tells_lines before, List.forall_mem_cons.mpr ⟨.opening opens, ending⟩⟩

end Block.Tells

theorem told_row {key : Text} (there : key ∈ d.tree.paths) : Told o d (row key) := by
  have indented : Block.indentStep = "   ".toList ++ [' '] := rfl
  have ends : ",\n".toList = ",".toList ++ ['\n'] := rfl
  refine ⟨_, .row there, ?_⟩
  rw [written_literal, row, indented, ends, ← List.append_assoc]

theorem told_keysLines : ∀ text ∈ keysLines (sortedKeys d.tree), Told o d text := by
  by_cases none : sortedKeys d.tree = []
  · rw [none]
    exact List.forall_mem_singleton.mpr (told_of_options 3 rfl)
  · rw [keysLines_eq none]
    refine List.forall_mem_cons.mpr ⟨told_of_options 4 rfl, List.forall_mem_append.mpr
      ⟨List.forall_mem_map.mpr fun key listed => ?_,
        List.forall_mem_singleton.mpr (told_of_options 5 rfl)⟩⟩
    exact told_row ((Sorting.sort_perm _ _).mem_iff.mp listed)

theorem told_file :
    Told o d ("pub const FILE: &str = ".toList ++ Text.quoted d.relativePath ++ ";".toList) := by
  have blank : "pub const FILE: &str = ".toList = "pub const FILE: &str =".toList ++ [' '] := rfl
  have ends : ";\n".toList = ";".toList ++ ['\n'] := rfl
  refine ⟨_, .file, ?_⟩
  rw [written_literal, blank, ends, ← List.append_assoc]

theorem told_lookup : Told o d ("pub fn lookup(key: &str) -> ::core::option::Option<".toList ++
    o.runtimePath ++ "::TranslationUnit>".toList ++ " \x7b".toList) := by
  have header : "::TranslationUnit> \x7b".toList =
      "::TranslationUnit>".toList ++ " \x7b".toList := by decide
  have line := told_of_options (o := o) (d := d) 6 rfl
  rwa [header, ← List.append_assoc] at line

theorem tells_headerBlocks : ∀ b ∈ headerBlocks o d, b.Tells o d := by
  have note : Told o d
      "/// Unit for a full dotted key, or \x60None\x60 when the document has no such key.".toList :=
    ⟨_, .note, by decide +kernel⟩
  refine List.forall_mem_cons.mpr ⟨.lines (List.forall_mem_singleton.mpr told_file),
    List.forall_mem_cons.mpr ⟨.lines ?_, List.forall_mem_cons.mpr ⟨.lines told_keysLines,
      List.forall_mem_singleton.mpr
        (.function (List.forall_mem_singleton.mpr note) told_lookup (told_of_options 7 rfl))⟩⟩⟩
  exact List.forall_mem_cons.mpr
    ⟨told_of_options 1 rfl, List.forall_mem_singleton.mpr (told_of_options 2 rfl)⟩

theorem told_module {name : Text}
    (known : LineOf o d [.fixed "pub mod ".toList, .named name, .fixed " \x7b\n".toList]) :
    Told o d (moduleHeader name ++ " \x7b".toList) := by
  have header : moduleHeader name = "pub mod ".toList ++ identifier name := rfl
  have opens : " \x7b\n".toList = " \x7b".toList ++ ['\n'] := rfl
  refine ⟨_, known, ?_⟩
  rw [written_named, header, opens, ← List.append_assoc]

theorem tells_entryBlock {scope : List Text × KeyTree} {name : Text} {e : Entry}
    (listed : scope ∈ d.tree.scopes []) (there : (name, e) ∈ scope.2.entries) :
    (entryBlock o.runtimePath scope.1.length name e.fullPath).Tells o d := by
  have key : name ∈ scope.2.entries.keys := List.mem_map_of_mem (f := (·.1)) there
  refine .function nofun ⟨_, .function listed key, ?_⟩ ⟨_, .call listed there, ?_⟩
  · have opens : "::TranslationUnit \x7b\n".toList =
        "::TranslationUnit".toList ++ (" \x7b".toList ++ ['\n']) := rfl
    rw [written_named, opens]
    simp only [List.append_assoc]
  · have blank : "SOURCE, ".toList = "SOURCE,".toList ++ [' '] := rfl
    have ends : ")\n".toList = ")".toList ++ ['\n'] := rfl
    rw [written_literal, blank, ends]
    simp only [List.append_assoc]

mutual

/-- The items of a group that is listed with the groups in it. Its depth is the number of names
above it. -/
theorem tells_treeBlocks : ∀ (t : KeyTree) (above : List Text),
    (∀ scope ∈ t.scopes above, scope ∈ d.tree.scopes []) →
    ∀ b ∈ treeBlocks o.runtimePath above.length t, b.Tells o d
  | .group n es gs, above, within => by
      rw [KeyTree.scopes] at within
      obtain ⟨here, below⟩ := List.forall_mem_cons.mp within
      rw [treeBlocks]
      refine List.forall_mem_append.mpr ⟨List.forall_mem_map.mpr fun ⟨name, e⟩ there => ?_, ?_⟩
      · have told := tells_entryBlock (o := o) here there
        exact told
      · have kept : ∀ k g, (k, g) ∈ gs → k ∈ (KeyTree.group n es gs).groups.keys :=
          fun k _ there => List.mem_map_of_mem (f := (·.1)) there
        exact tells_groupBlocks here gs kept below

theorem tells_groupBlocks {t : KeyTree} {above : List Text} (here : (above, t) ∈ d.tree.scopes []) :
    ∀ gs : List (Text × KeyTree), (∀ k g, (k, g) ∈ gs → k ∈ t.groups.keys) →
    (∀ scope ∈ KeyTree.scopesOf above gs, scope ∈ d.tree.scopes []) →
    ∀ b ∈ groupBlocks o.runtimePath above.length gs, b.Tells o d
  | [], _, _ => nofun
  | (name, g) :: rest, kept, within => by
      rw [KeyTree.scopesOf] at within
      obtain ⟨first, later⟩ := List.forall_mem_append.mp within
      have inside := tells_treeBlocks g (above ++ [name]) first
      rw [List.length_append, List.length_singleton] at inside
      rw [groupBlocks]
      refine List.forall_mem_cons.mpr ⟨.scope nofun (told_module ?_) inside, ?_⟩
      · exact .groupModule here (kept name g List.mem_cons_self)
      · exact tells_groupBlocks here rest (fun k g there => kept k g (List.mem_cons_of_mem _ there))
          later

end

theorem tells_nestSteps {names : List Text} {inside : List Step}
    (outer : ∀ n ∈ names, n ∈ namespaceSegments d.names.enclosing ++ [d.names.className])
    (tells : ∀ s ∈ inside, s.Tells o d) :
    ∀ s ∈ nestSteps (names.map moduleHeader) inside, s.Tells o d := by
  induction names with
  | nil => exact tells
  | cons name names ih =>
      obtain ⟨here, later⟩ := List.forall_mem_cons.mp outer
      rw [List.map_cons, nestSteps]
      refine List.forall_mem_cons.mpr ⟨.opening (told_module (.outerModule here)), ?_⟩
      exact List.forall_mem_append.mpr ⟨ih later, List.forall_mem_singleton.mpr .closing⟩

theorem written_preamble (d : Descriptor) :
    written (preamble d) = "//".toList ++ originNote d ++
      '\n' :: '\n' :: ("#[allow(non_snake_case, dead_code)]".toList ++ ['\n']) := by
  have allowed : "\n#[allow(non_snake_case, dead_code)]\n".toList =
      '\n' :: ("#[allow(non_snake_case, dead_code)]".toList ++ ['\n']) := rfl
  have pieces : preamble d = [.comment (originNote d),
      .fixed "\n#[allow(non_snake_case, dead_code)]\n".toList] := rfl
  rw [pieces, allowed]
  simp only [written, List.flatMap_cons, List.flatMap_nil, Piece.text, List.append_assoc,
    List.cons_append, List.nil_append, List.append_nil]

theorem firstLine_eq (d : Descriptor) :
    "// @generated by echoes-gen from ".toList ++ d.relativePath ++ ". Do not edit.".toList =
      "//".toList ++ originNote d := by
  have slashes : "// @generated by echoes-gen from ".toList =
      "//".toList ++ " @generated by echoes-gen from ".toList := rfl
  have note : originNote d = " @generated by echoes-gen from ".toList ++ d.relativePath ++
      ". Do not edit.".toList := rfl
  rw [slashes, note]
  simp only [List.append_assoc]

theorem run_preamble (d : Descriptor) (steps : List Step) :
    Writer.blank.run (.line ("// @generated by echoes-gen from ".toList ++ d.relativePath ++
        ". Do not edit.".toList) :: .itemBreak ::
      .line "#[allow(non_snake_case, dead_code)]".toList :: steps) =
      Writer.run ⟨written (preamble d), 0, false⟩ steps := by
  have begun := Block.line_ne_nil 0 ("//".toList ++ originNote d)
  have spelled : written (preamble d) = Block.line 0 ("//".toList ++ originNote d) ++ ['\n'] ++
      Block.line 0 "#[allow(non_snake_case, dead_code)]".toList := by
    rw [written_preamble]
    simp only [Block.line, List.replicate_zero, List.flatten_nil, List.append_assoc,
      List.nil_append, List.cons_append]
  rw [firstLine_eq, spelled]
  change Writer.run (Writer.take ⟨Block.line 0 _, 0, false⟩ .itemBreak) _ = _
  rw [Writer.take_itemBreak begun]
  rfl

/-- The source of a document is its preamble and lines of the kinds that there are. -/
theorem exists_lines (o : Options) (d : Descriptor) :
    ∃ lines : List (List Piece), (∀ line ∈ lines, SourceLine o d line) ∧
      sourceText o d = written (preamble d ++ lines.flatten) := by
  have items : ∀ b ∈ headerBlocks o d ++ treeBlocks o.runtimePath 0 d.tree, b.Tells o d :=
    List.forall_mem_append.mpr
      ⟨tells_headerBlocks, tells_treeBlocks d.tree [] fun _ there => there⟩
  -- The preamble is what the writer starts from; every other step puts down a line of its own.
  have nested := tells_nestSteps (fun _ there => there) (tells_itemSteps items)
  obtain ⟨lines, known, added⟩ := Writer.run_tells ⟨written (preamble d), 0, false⟩ nested
  refine ⟨lines, known, ?_⟩
  rw [← run_sourceSteps, sourceSteps_eq, run_preamble, added, written_append]

/-- The paths that the options give to the source are code. -/
structure Options.Plain (o : Options) : Prop where
  runtime : Code o.runtimePath
  resources : Code o.resourcesPath

namespace Options.Plain

variable (plain : o.Plain)
include plain

theorem around {before after : Text} (front : Code before) (back : Code after) :
    Code (before ++ o.runtimePath ++ after) := (front.append plain.runtime).append back

theorem optionLines : ∀ text ∈ optionLines o, Code text := by
  have closing : Code "\x7d".toList := by decide
  have type : Code ("pub static SOURCE: ".toList ++ o.runtimePath ++
      "::TranslationSource =".toList) := plain.around (by decide) (by decide)
  have value : Code (Block.indentStep ++ o.runtimePath ++ "::TranslationSource::new(&".toList ++
      o.resourcesPath ++ ", FILE);".toList) :=
    ((plain.around (by decide) (by decide)).append plain.resources).append (by decide)
  have header : Code ("pub fn lookup(key: &str) -> ::core::option::Option<".toList ++
      o.runtimePath ++ "::TranslationUnit> \x7b".toList) :=
    plain.around (by decide +kernel) (by decide)
  have body : Code ("KEYS.iter().copied().find(|k| *k == key).map(|k| ".toList ++
      o.runtimePath ++ "::TranslationUnit::new(&SOURCE, k))".toList) :=
    plain.around (by decide +kernel) (by decide)
  simp only [Accessors.optionLines, List.forall_mem_cons]
  exact ⟨closing, type, value, by decide, by decide, by decide, header, body, nofun⟩

theorem lineOf {pieces : List Piece} (line : LineOf o d pieces) : ∀ p ∈ pieces, p.Sound := by
  have three : ∀ {before after : Text} {p : Piece}, Code before → p.Sound → Code after →
      ∀ q ∈ [.fixed before, p, .fixed after], q.Sound := fun front sound back =>
    List.forall_mem_cons.mpr ⟨front, List.forall_mem_cons.mpr ⟨sound,
      List.forall_mem_singleton.mpr back⟩⟩
  cases line with
  | options there =>
      have ended : Code ['\n'] := by decide
      exact List.forall_mem_singleton.mpr ((plain.optionLines _ there).append ended)
  | note => exact List.forall_mem_singleton.mpr (by decide +kernel : '\n' ∉ _)
  | file => exact three (by decide) trivial (by decide)
  | row _ => exact three (by decide) trivial (by decide)
  | outerModule _ => exact three (by decide) trivial (by decide)
  | groupModule _ _ => exact three (by decide) trivial (by decide)
  | function _ _ => exact three (by decide) trivial (plain.around (by decide) (by decide))
  | @call scope _ _ _ _ =>
      have steps : Code "super::".toList := by decide
      have front : Code (o.runtimePath ++ "::TranslationUnit::new(&".toList) :=
        plain.runtime.append (by decide)
      exact three ((front.append (steps.replicate _)).append (by decide)) trivial (by decide)

theorem sourceLine {pieces : List Piece} (line : SourceLine o d pieces) :
    ∀ p ∈ pieces, p.Sound := by
  cases line with
  | blank => exact List.forall_mem_singleton.mpr (by decide : Code ['\n'])
  | indented depth known =>
      have blanks : Code Block.indentStep := by decide
      exact List.forall_mem_cons.mpr ⟨blanks.replicate depth, plain.lineOf known⟩

theorem lexed_lines {lines : List (List Piece)} (known : ∀ line ∈ lines, SourceLine o d line) :
    Lexed (written lines.flatten) (meant lines.flatten) := by
  have sound : ∀ p ∈ lines.flatten, p.Sound := by
    intro p there
    obtain ⟨line, listed, inside⟩ := List.mem_flatten.mp there
    exact plain.sourceLine (known line listed) p inside
  have read := Lexed.append_written sound .done
  rwa [List.append_nil, List.append_nil] at read

end Options.Plain

end Telling

theorem newline_not_mem_originNote {d : Descriptor} :
    '\n' ∉ originNote d ↔ '\n' ∉ d.relativePath := by
  have before : '\n' ∉ " @generated by echoes-gen from ".toList := by decide
  have after : '\n' ∉ ". Do not edit.".toList := by decide
  refine not_congr ⟨fun there => ?_, fun there => ?_⟩
  · rcases List.mem_append.mp there with front | back
    · exact (List.mem_append.mp front).resolve_left before
    · exact (after back).elim
  · exact List.mem_append_left _ (List.mem_append_right _ there)

theorem plain_of_isValid {s : Settings} (valid : s.isValid = true) : s.options.Plain := by
  have code : ∀ {p : Settings.ItemPath}, p.Spelled → Code p.text := by
    intro p spelled c there
    have colons : Code Settings.colons := by decide
    rcases Settings.ItemPath.mem_text there with between | ⟨word, listed, inside⟩
    · exact colons c between
    · exact (spelled.words word listed).code c inside
  obtain ⟨resources, crate⟩ := Settings.isItemPath_of_isValid valid
  rw [Settings.isItemPath_iff] at resources crate
  refine ⟨?_, ?_⟩
  · rw [crate.runtimePath_eq (Settings.ItemPath.text_ofText s.runtimeCrate).symm]
    exact code crate.absolute
  · have written := code resources
    rwa [Settings.ItemPath.text_ofText] at written

/-- The first lines of a source whose document has a path of one line. -/
theorem take_splitOn_preamble {d : Descriptor} (rest : Text) :
    ((written (preamble d) ++ rest).splitOn '\n').take 3 =
        ["//".toList ++ originNote d, [], "#[allow(non_snake_case, dead_code)]".toList] ↔
      '\n' ∉ d.relativePath := by
  have allowed : '\n' ∉ "#[allow(non_snake_case, dead_code)]".toList := by decide
  have lines : written (preamble d) ++ rest = ("//".toList ++ originNote d) ++
      '\n' :: ([] ++ '\n' :: ("#[allow(non_snake_case, dead_code)]".toList ++ '\n' :: rest)) := by
    rw [written_preamble]
    simp only [List.append_assoc, List.cons_append, List.nil_append]
  rw [← newline_not_mem_originNote, lines]
  constructor
  · intro same there
    have first := List.mem_of_mem_take (same ▸ List.mem_cons_self)
    exact Cut.not_mem_segment first (List.mem_append_right _ there)
  · intro inLine
    have whole : '\n' ∉ "//".toList ++ originNote d := fun there =>
      (List.mem_append.mp there).elim (by decide) inLine
    rw [List.splitOn_append_cons_self_of_not_mem whole,
      List.splitOn_append_cons_self_of_not_mem List.not_mem_nil,
      List.splitOn_append_cons_self_of_not_mem allowed]
    rfl

/-- With its preamble a source is read as it is meant if its document has a path of one line. -/
theorem lexed_preamble_iff {d : Descriptor} {pieces : List Piece}
    (further : Lexed (written pieces) (meant pieces)) :
    (∀ lexemes, Lexed (written (preamble d ++ pieces)) lexemes ↔
      lexemes = meant (preamble d ++ pieces)) ↔ '\n' ∉ d.relativePath := by
  rw [← newline_not_mem_originNote]
  constructor
  · intro reads
    exact ((reads _).mpr rfl).newline_not_mem
  · intro inLine
    have allowed : Code "\n#[allow(non_snake_case, dead_code)]\n".toList := by decide
    have sound : ∀ p ∈ preamble d, p.Sound :=
      List.forall_mem_cons.mpr ⟨inLine, List.forall_mem_singleton.mpr allowed⟩
    have read := further.append_written sound
    rw [← written_append] at read
    have together : meant (preamble d) ++ meant pieces = meant (preamble d ++ pieces) :=
      List.flatMap_append.symm
    exact (together ▸ read).iff_eq

theorem lexed_broken_path {d : Descriptor} {before after : Text} {pieces : List Piece}
    (path : d.relativePath = before ++ '\n' :: after) (inLine : '\n' ∉ before) (code : Code after)
    (further : Lexed (written pieces) (meant pieces)) :
    ∃ lexemes, Lexed (written (preamble d ++ pieces))
      (.comment (" @generated by echoes-gen from ".toList ++ before) :: .code '\n' ::
        (after.map .code ++ lexemes)) := by
  have lead : '\n' ∉ " @generated by echoes-gen from ".toList := by decide
  have allowed : Code (". Do not edit.".toList ++
      '\n' :: '\n' :: ("#[allow(non_snake_case, dead_code)]".toList ++ ['\n'])) := by decide
  have read := ((further.append_code allowed).append_code code).append_comment
    fun there => (List.mem_append.mp there).elim lead inLine
  have note : originNote d = " @generated by echoes-gen from ".toList ++ d.relativePath ++
      ". Do not edit.".toList := rfl
  have spelled : written (preamble d ++ pieces) = "//".toList ++
      (" @generated by echoes-gen from ".toList ++ before) ++ '\n' :: (after ++
        ((". Do not edit.".toList ++
          '\n' :: '\n' :: ("#[allow(non_snake_case, dead_code)]".toList ++ ['\n'])) ++
          written pieces)) := by
    rw [written_append, written_preamble, note, path]
    simp only [List.append_assoc, List.cons_append, List.nil_append]
  rw [spelled]
  exact ⟨_, read⟩

/-- Data stands apart from code in the source that is emitted under valid settings. The source is
its preamble and lines in which keys and the path of the document stand in literals and names are
told by their identifiers, and behind the preamble it is read as these pieces are meant and in no
other way. Only the path in the first comment is as it is: exactly for a path of one line that
comment is the first line, a blank one and the attribute follow it, and the whole source is read as
it is meant. -/
theorem data_apart_from_code {s : Settings} (valid : s.isValid = true) {d : Descriptor}
    {source : Text} (emitted : emit s.options d = .ok source) :
    ∃ lines : List (List Piece), (∀ line ∈ lines, SourceLine s.options d line) ∧
      source = written (preamble d ++ lines.flatten) ∧
      (∀ lexemes, Lexed (written lines.flatten) lexemes ↔ lexemes = meant lines.flatten) ∧
      ((source.splitOn '\n').take 3 =
          ["//".toList ++ originNote d, [], "#[allow(non_snake_case, dead_code)]".toList] ↔
        '\n' ∉ d.relativePath) ∧
      ((∀ lexemes, Lexed source lexemes ↔ lexemes = meant (preamble d ++ lines.flatten)) ↔
        '\n' ∉ d.relativePath) := by
  obtain ⟨lines, known, spelled⟩ := exists_lines s.options d
  have read := (plain_of_isValid valid).lexed_lines known
  rw [← emit_eq_ok emitted] at spelled
  refine ⟨lines, known, spelled, read.iff_eq, ?_, ?_⟩
  · rw [spelled, written_append]
    exact take_splitOn_preamble _
  · rw [spelled]
    exact lexed_preamble_iff read

/-- A document whose path, names and keys try to be code. -/
def intrusive : Descriptor where
  relativePath := "ui/*\"; fn main() \x7b\x7d //é.toml".toList
  names := ⟨"fn".toList, "a b::crate.\"x\"".toList⟩
  tree := KeyTree.root.insertEach ["say \"hi\"\n\x7d".toList, "menu/**/.type".toList, "'\\".toList]

theorem data_apart_from_code_intrusive :
    Settings.default.isValid = true ∧
    ∃ source, emit Settings.default.options intrusive = .ok source ∧
      (source.splitOn '\n').take 3 =
        [("// @generated by echoes-gen from " ++
            "ui/*\"; fn main() \x7b\x7d //é.toml. Do not edit.").toList,
          [], "#[allow(non_snake_case, dead_code)]".toList] ∧
      ∃ lexemes, ∀ others, Lexed source others ↔ others = lexemes := by
  have valid : Settings.default.isValid = true := by decide +kernel
  have accepted : (emit Settings.default.options intrusive).toOption.isSome = true := by
    decide +kernel
  obtain ⟨source, found⟩ := Option.isSome_iff_exists.mp accepted
  have emitted := Outcome.eq_ok_of_toOption found
  obtain ⟨lines, -, -, -, first, read⟩ := data_apart_from_code valid emitted
  have line : "//".toList ++ originNote intrusive = ("// @generated by echoes-gen from " ++
      "ui/*\"; fn main() \x7b\x7d //é.toml. Do not edit.").toList := by decide +kernel
  rw [line] at first
  have inLine : '\n' ∉ intrusive.relativePath := by decide
  exact ⟨valid, source, emitted, first.mpr inLine, _, read.mpr inLine⟩

/-- A document with a line break in its path. -/
def broken : Descriptor where
  relativePath := "a\nb.toml".toList
  names := ⟨"Strings".toList, "App".toList⟩
  tree := KeyTree.root.insertEach ["title".toList]

/-- The path ends the comment and goes on as code. -/
theorem path_breaks_out_of_comment :
    Settings.default.isValid = true ∧
    ∃ source, emit Settings.default.options broken = .ok source ∧
      (source.splitOn '\n').take 3 = ["// @generated by echoes-gen from a".toList,
        "b.toml. Do not edit.".toList, []] ∧
      ∃ lexemes, Lexed source (.comment " @generated by echoes-gen from a".toList :: .code '\n' ::
        ("b.toml".toList.map .code ++ lexemes)) := by
  have valid : Settings.default.isValid = true := by decide +kernel
  have begins : (emit Settings.default.options broken).toOption.map
      (fun source => (source.splitOn '\n').take 3) =
      some ["// @generated by echoes-gen from a".toList, "b.toml. Do not edit.".toList, []] := by
    decide +kernel
  obtain ⟨source, found, first⟩ := Option.map_eq_some_iff.mp begins
  have emitted := Outcome.eq_ok_of_toOption found
  obtain ⟨lines, known, spelled⟩ := exists_lines Settings.default.options broken
  rw [← emit_eq_ok emitted] at spelled
  have path : broken.relativePath = "a".toList ++ '\n' :: "b.toml".toList := by decide
  have read := lexed_broken_path path (by decide) (by decide)
    ((plain_of_isValid valid).lexed_lines known)
  have note : " @generated by echoes-gen from ".toList ++ "a".toList =
      " @generated by echoes-gen from a".toList := by decide
  rw [← spelled, note] at read
  exact ⟨valid, source, emitted, first, read⟩

end Phrasebook.Accessors
