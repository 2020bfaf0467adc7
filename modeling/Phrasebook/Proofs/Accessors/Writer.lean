import Phrasebook.Proofs.Accessors.KeysTable

/-! Source text as a writer puts it down, step by step and with nothing in mind but how deep it is.
The modules around a class are opened one after the other and closed at the end, which is the same
as to nest them. What nested blocks render to is what the writer has written, and every block that
the steps open they close. -/
namespace Phrasebook.Accessors

/-- What a writer is told. -/
inductive Step where
  | itemBreak
  | line (text : Text)
  | opening (header : Text)
  | closing

/-- A writer with what it has written, how many blocks are open, and whether the innermost of them
has no items yet. -/
structure Writer where
  text : Text
  depth : Nat
  atStart : Bool

theorem Block.line_ne_nil (depth : Nat) (text : Text) : line depth text ≠ [] :=
  List.append_ne_nil_of_right_ne_nil _ (List.cons_ne_nil _ _)

namespace Writer

def blank : Writer := ⟨[], 0, false⟩

/-- The depth after a closing step is cut off at zero. -/
def take (w : Writer) : Step → Writer
  | .itemBreak =>
    ⟨if w.atStart || w.text.isEmpty then w.text else w.text ++ ['\n'], w.depth, false⟩
  | .line text => { w with text := w.text ++ Block.line w.depth text }
  | .opening header =>
    ⟨w.text ++ Block.line w.depth (header ++ " \x7b".toList), w.depth + 1, true⟩
  | .closing => ⟨w.text ++ Block.line (w.depth - 1) "\x7d".toList, w.depth - 1, false⟩

def run (w : Writer) : List Step → Writer
  | [] => w
  | s :: rest => run (w.take s) rest

theorem run_append (w : Writer) (steps more : List Step) :
    w.run (steps ++ more) = (w.run steps).run more := by
  induction steps generalizing w with
  | nil => rfl
  | cons s rest ih => exact ih _

@[simp] theorem depth_opening (w : Writer) (header : Text) :
    (w.take (.opening header)).depth = w.depth + 1 := rfl

@[simp] theorem depth_closing (w : Writer) : (w.take .closing).depth = w.depth - 1 := rfl

theorem run_lines (text : Text) (depth : Nat) (atStart : Bool) (texts : List Text) :
    run ⟨text, depth, atStart⟩ (texts.map .line) =
      ⟨text ++ texts.flatMap (Block.line depth), depth, atStart⟩ := by
  induction texts generalizing text with
  | nil => rw [List.flatMap_nil, List.append_nil]; rfl
  | cons t rest ih =>
      rw [List.map_cons, run, List.flatMap_cons, ← List.append_assoc]
      exact ih _

end Writer

mutual

def Block.steps : Block → List Step
  | .lines text => text.map .line
  | .function leading header body =>
    leading.map .line ++ [.opening header, .line body, .closing]
  | .scope leading header items =>
    leading.map .line ++ .opening header :: (Block.itemSteps items ++ [.closing])

/-- The steps of items, each with a break before it. -/
def Block.itemSteps : List Block → List Step
  | [] => []
  | item :: rest => .itemBreak :: (item.steps ++ Block.itemSteps rest)

end

theorem Block.itemSteps_append (items more : List Block) :
    itemSteps (items ++ more) = itemSteps items ++ itemSteps more := by
  induction items with
  | nil => rfl
  | cons item rest ih =>
      rw [List.cons_append, itemSteps, itemSteps, ih, List.cons_append, List.append_assoc]

/-- Every header opens a block around the rest. -/
def nestSteps : List Text → List Step → List Step
  | [], inside => inside
  | header :: rest, inside => .opening header :: (nestSteps rest inside ++ [.closing])

/-- To nest is to open all headers first, and to close as many blocks at the end. -/
theorem nestSteps_eq (headers : List Text) (inside : List Step) : nestSteps headers inside =
    headers.map .opening ++ (inside ++ List.replicate headers.length .closing) := by
  induction headers with
  | nil => exact (List.append_nil inside).symm
  | cons header rest ih =>
      rw [nestSteps, ih, List.map_cons, List.length_cons, List.replicate_succ', List.cons_append,
        List.append_assoc, List.append_assoc]

namespace Writer

theorem take_itemBreak {text : Text} (begun : text ≠ []) (depth : Nat) (atStart : Bool) :
    take ⟨text, depth, atStart⟩ .itemBreak =
      ⟨text ++ (if atStart then [] else ['\n']), depth, false⟩ := by
  have more : text.isEmpty = false := by simpa using begun
  cases atStart with
  | true => rw [if_pos rfl, List.append_nil]; rfl
  | false =>
      rw [take, more]
      rfl

mutual

/-- A block that comes after something else is written as it is rendered. -/
theorem run_steps {text : Text} (begun : text ≠ []) (depth : Nat) : ∀ b : Block,
    run ⟨text, depth, false⟩ b.steps = ⟨text ++ b.render depth, depth, false⟩
  | .lines texts => by
      rw [Block.steps, Block.render]
      exact run_lines text depth false texts
  | .function leading header body => by
      rw [Block.steps, run_append, run_lines, Block.render]
      simp only [run, take, Nat.add_sub_cancel, List.append_assoc]
  | .scope leading header items => by
      have opened : text ++ leading.flatMap (Block.line depth) ++
          Block.line depth (header ++ " \x7b".toList) ≠ [] := by
        rw [List.append_assoc]
        exact List.append_ne_nil_of_left_ne_nil begun _
      rw [Block.steps, run_append, run_lines, run, take, run_append, run_itemSteps opened, run,
        run, take, Block.render]
      simp only [Nat.add_sub_cancel, List.append_assoc]

theorem run_itemSteps {text : Text} (begun : text ≠ []) (depth : Nat) (atStart : Bool) :
    ∀ items : List Block, run ⟨text, depth, atStart⟩ (Block.itemSteps items) =
      ⟨text ++ Block.renderItems depth atStart items, depth, atStart && items.isEmpty⟩
  | [] => by
      rw [Block.itemSteps, Block.renderItems, List.append_nil, run, List.isEmpty_nil, Bool.and_true]
  | item :: rest => by
      have broken : text ++ (if atStart then [] else ['\n']) ≠ [] :=
        List.append_ne_nil_of_left_ne_nil begun _
      have written : text ++ (if atStart then [] else ['\n']) ++ item.render depth ≠ [] :=
        List.append_ne_nil_of_left_ne_nil broken _
      rw [Block.itemSteps, run, take_itemBreak begun, run_append, run_steps broken,
        run_itemSteps written, Block.renderItems_cons]
      simp only [List.append_assoc, List.isEmpty_cons, Bool.and_false, Bool.false_and]

end

theorem run_nestSteps {text : Text} (begun : text ≠ []) (depth : Nat) (atStart : Bool)
    (header : Text) (inner : List Text) (items : List Block) :
    run ⟨text, depth, atStart⟩ (nestSteps (header :: inner) (Block.itemSteps items)) =
      ⟨text ++ (Block.nest [] header inner items).render depth, depth, false⟩ := by
  induction inner generalizing text depth atStart header with
  | nil => exact run_steps begun depth (.scope [] header items)
  | cons next rest ih =>
      have opened : text ++ Block.line depth (header ++ " \x7b".toList) ≠ [] :=
        List.append_ne_nil_of_left_ne_nil begun _
      rw [nestSteps, run, take, run_append, ih opened, run, run, take, Block.nest, Block.render,
        Block.renderItems_cons, Block.renderItems]
      simp only [List.flatMap_nil, List.nil_append, if_true, List.append_nil, Nat.add_sub_cancel,
        List.append_assoc]

end Writer

/-- Steps in which every block that is opened is closed once, after what is in it. -/
inductive Balanced : List Step → Prop
  | nil : Balanced []
  | itemBreak {rest : List Step} (h : Balanced rest) : Balanced (.itemBreak :: rest)
  | line {text : Text} {rest : List Step} (h : Balanced rest) : Balanced (.line text :: rest)
  | block {header : Text} {inside rest : List Step} (hi : Balanced inside) (h : Balanced rest) :
      Balanced (.opening header :: (inside ++ .closing :: rest))

namespace Balanced

theorem append {steps more : List Step} (h : Balanced steps) (h' : Balanced more) :
    Balanced (steps ++ more) := by
  induction h with
  | nil => exact h'
  | itemBreak _ ih => exact .itemBreak ih
  | line _ ih => exact .line ih
  | block hi _ _ ih =>
      rw [List.cons_append, List.append_assoc, List.cons_append]
      exact .block hi ih

theorem lines (texts : List Text) : Balanced (texts.map .line) := by
  induction texts with
  | nil => exact .nil
  | cons text rest ih => exact .line ih

mutual

theorem steps : ∀ b : Block, Balanced b.steps
  | .lines texts => by
      rw [Block.steps]
      exact lines texts
  | .function leading header body => by
      rw [Block.steps]
      exact (lines leading).append (.block (.line .nil) .nil)
  | .scope leading header items => by
      rw [Block.steps]
      exact (lines leading).append (.block (itemSteps items) .nil)

theorem itemSteps : ∀ items : List Block, Balanced (Block.itemSteps items)
  | [] => by
      rw [Block.itemSteps]
      exact .nil
  | item :: rest => by
      rw [Block.itemSteps]
      exact .itemBreak ((steps item).append (itemSteps rest))

end

theorem nestSteps (headers : List Text) {inside : List Step} (h : Balanced inside) :
    Balanced (nestSteps headers inside) := by
  induction headers with
  | nil => exact h
  | cons header rest ih => exact .block ih .nil

theorem depth_run {steps : List Step} (h : Balanced steps) (w : Writer) :
    (w.run steps).depth = w.depth := by
  induction h generalizing w with
  | nil => rfl
  | itemBreak _ ih => exact ih _
  | line _ ih => exact ih _
  | block hi _ ihi ih =>
      rw [Writer.run, Writer.run_append, Writer.run, ih, Writer.depth_closing, ihi,
        Writer.depth_opening, Nat.add_sub_cancel]

/-- A closing step always meets a block that was opened among the same steps. -/
theorem lt_depth_run {steps before after : List Step} (h : Balanced steps)
    (cut : steps = before ++ .closing :: after) (w : Writer) : w.depth < (w.run before).depth := by
  induction h generalizing before after w with
  | nil => exact (List.append_ne_nil_of_right_ne_nil _ (List.cons_ne_nil _ _) cut.symm).elim
  | itemBreak _ ih =>
      cases before with
      | nil => cases cut
      | cons s before =>
          obtain ⟨rfl, later⟩ := List.cons.inj cut
          exact ih later (w.take .itemBreak)
  | @line text _ _ ih =>
      cases before with
      | nil => cases cut
      | cons s before =>
          obtain ⟨rfl, later⟩ := List.cons.inj cut
          exact ih later (w.take (.line text))
  | @block header inside rest hi _ ihi ih =>
      cases before with
      | nil => cases cut
      | cons s before =>
          obtain ⟨rfl, later⟩ := List.cons.inj cut
          have opened : w.depth < (w.take (.opening header)).depth := Nat.lt_succ_self _
          -- The closing step is one inside, that of the block itself, or one of what follows.
          rcases List.append_eq_append_iff.mp later with ⟨more, rfl, tail⟩ | ⟨more, split, tail⟩
          · cases more with
            | nil =>
                rw [List.append_nil, Writer.run, hi.depth_run]
                exact opened
            | cons s more =>
                obtain ⟨rfl, following⟩ := List.cons.inj tail
                rw [Writer.run, Writer.run_append, Writer.run]
                refine lt_of_eq_of_lt ?_ (ih following _)
                rw [Writer.depth_closing, hi.depth_run, Writer.depth_opening, Nat.add_sub_cancel]
          · cases more with
            | nil =>
                rw [List.append_nil] at split
                rw [Writer.run, ← split, hi.depth_run]
                exact opened
            | cons s more =>
                obtain ⟨rfl, -⟩ := List.cons.inj tail
                exact Nat.lt_trans opened (ihi split _)

end Balanced

/-- The steps in which the source of a document is written. -/
def sourceSteps (o : Options) (d : Descriptor) : List Step :=
  let outer := namespaceSegments d.names.enclosing
  .line ("// @generated by echoes-gen from ".toList ++ d.relativePath ++ ". Do not edit.".toList) ::
    .itemBreak :: .line "#[allow(non_snake_case, dead_code)]".toList ::
      (outer.map (fun segment => .opening (moduleHeader segment)) ++
        .opening (moduleHeader d.names.className) ::
          (Block.itemSteps (headerBlocks o d) ++
            (Block.itemSteps (treeBlocks o.runtimePath 0 d.tree) ++
              List.replicate (outer.length + 1) .closing)))

theorem sourceSteps_eq (o : Options) (d : Descriptor) : sourceSteps o d =
    .line ("// @generated by echoes-gen from ".toList ++ d.relativePath ++
        ". Do not edit.".toList) ::
      .itemBreak :: .line "#[allow(non_snake_case, dead_code)]".toList ::
        nestSteps ((namespaceSegments d.names.enclosing ++ [d.names.className]).map moduleHeader)
          (Block.itemSteps (headerBlocks o d ++ treeBlocks o.runtimePath 0 d.tree)) := by
  simp [sourceSteps, nestSteps_eq, Block.itemSteps_append]

theorem balanced_sourceSteps (o : Options) (d : Descriptor) : Balanced (sourceSteps o d) := by
  rw [sourceSteps_eq]
  exact .line (.itemBreak (.line (.nestSteps _ (.itemSteps _))))

theorem Block.render_nest_leading (leading : List Text) (header : Text) (inner : List Text)
    (items : List Block) (depth : Nat) :
    (Block.nest leading header inner items).render depth =
      leading.flatMap (Block.line depth) ++ (Block.nest [] header inner items).render depth := by
  cases inner <;> simp [Block.nest, Block.render]

/-- Written step by step, the source of a document is its text. -/
theorem run_sourceSteps (o : Options) (d : Descriptor) :
    (Writer.blank.run (sourceSteps o d)).text = sourceText o d := by
  obtain ⟨header, inner, headers⟩ : ∃ header inner,
      (namespaceSegments d.names.enclosing ++ [d.names.className]).map moduleHeader =
        header :: inner := by
    refine List.exists_cons_of_ne_nil ?_
    simp
  rw [sourceSteps_eq, sourceText, classBlock, headers, Block.render_nest_leading]
  generalize "// @generated by echoes-gen from ".toList ++ d.relativePath ++
    ". Do not edit.".toList = comment
  have begun : [] ++ Block.line 0 comment ≠ [] := Block.line_ne_nil 0 comment
  have broken : [] ++ Block.line 0 comment ++ ['\n'] ++
      Block.line 0 "#[allow(non_snake_case, dead_code)]".toList ≠ [] :=
    List.append_ne_nil_of_left_ne_nil (List.append_ne_nil_of_left_ne_nil begun _) _
  rw [Writer.run, Writer.blank, Writer.take, Writer.run, Writer.take_itemBreak begun, Writer.run,
    Writer.take, if_neg Bool.false_ne_true, Writer.run_nestSteps broken]
  simp

end Phrasebook.Accessors
