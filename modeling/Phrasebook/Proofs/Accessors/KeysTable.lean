import Phrasebook.Accessors.Source
import Phrasebook.Proofs.Outcome
import Phrasebook.Proofs.Text.Literal

/-! The table of keys in generated source, read as a program would read it: line by line, each row
for its literal. Whatever the options are, such a table stands in the source of a document, and it
gives back the sorted keys. -/
namespace Phrasebook.Accessors

def unindented (line : Text) : Text := line.dropWhile (· = ' ')

/-- The keys of rows, up to the line that closes their table. -/
def readRows : List Text → Option (List Text)
  | [] => none
  | line :: rest =>
    if unindented line = "];".toList then some []
    else
      match Text.readLiteral (unindented line) with
      | some (key, [',']) => (readRows rest).map (key :: ·)
      | _ => none

/-- The keys of the table that the first line opens. -/
def readKeys : List Text → Option (List Text)
  | [] => none
  | line :: rest =>
    if unindented line = "pub const KEYS: &[&str] = &[];".toList then some []
    else if unindented line = "pub const KEYS: &[&str] = &[".toList then readRows rest
    else none

/-- Some line of the source opens a table of these keys. -/
def HasKeys (source : Text) (keys : List Text) : Prop :=
  ∃ rest, rest <:+ source.splitOn '\n' ∧ readKeys rest = some keys

namespace Block

abbrev indent (depth : Nat) : Text := (List.replicate depth indentStep).flatten

/-- Some line of a text is the first of a block. -/
def Stands (b : Block) (whole : Text) : Prop :=
  ∃ depth front back, whole = front ++ '\n' :: (b.render depth ++ back)

theorem Stands.append {b : Block} {whole : Text} (h : b.Stands whole) (front back : Text) :
    b.Stands (front ++ whole ++ back) := by
  obtain ⟨depth, p, t, rfl⟩ := h
  exact ⟨depth, front ++ p, t ++ back, by simp⟩

theorem renderItems_cons (depth : Nat) (isFirst : Bool) (item : Block) (items : List Block) :
    renderItems depth isFirst (item :: items) =
      (if isFirst then [] else ['\n']) ++ render depth item ++ renderItems depth false items := by
  rw [renderItems]

theorem stands_of_mem {b : Block} {items : List Block} (h : b ∈ items) (depth : Nat)
    (isFirst : Bool) : b.Stands ('\n' :: renderItems depth isFirst items) := by
  induction items generalizing isFirst with
  | nil => cases h
  | cons item items ih =>
      rw [renderItems_cons]
      rcases List.mem_cons.mp h with rfl | later
      · refine ⟨depth, if isFirst then [] else ['\n'], renderItems depth false items, ?_⟩
        cases isFirst <;> simp
      · -- The items after the first start with a line break of their own.
        obtain ⟨next, others, rfl⟩ := List.exists_cons_of_ne_nil (List.ne_nil_of_mem later)
        have inner := ih later true
        have broken : renderItems depth false (next :: others) =
            '\n' :: renderItems depth true (next :: others) := by
          simp only [renderItems_cons]
          rfl
        rw [broken]
        have := inner.append ('\n' :: ((if isFirst then [] else ['\n']) ++ render depth item)) []
        rwa [List.append_nil] at this

theorem stands_scope {b : Block} {leading : List Text} {header : Text} {items : List Block}
    {depth : Nat} (h : b.Stands ('\n' :: renderItems (depth + 1) true items)) :
    b.Stands ((scope leading header items).render depth) := by
  have := h.append (leading.flatMap (line depth) ++
    (indent depth ++ (header ++ " \x7b".toList)))
    (line depth "\x7d".toList)
  refine (congrArg (Stands b) ?_).mp this
  rw [render]
  simp [line]

theorem stands_nest {b : Block} {items : List Block} (h : b ∈ items) (leading : List Text)
    (header : Text) (inner : List Text) (depth : Nat) :
    b.Stands ((nest leading header inner items).render depth) := by
  induction inner generalizing leading header depth with
  | nil => exact stands_scope (stands_of_mem h (depth + 1) true)
  | cons next rest ih =>
      rw [nest]
      refine stands_scope ?_
      rw [renderItems_cons, renderItems]
      exact (ih [] next (depth + 1)).append ['\n'] []

theorem unindented_indent (depth : Nat) (text : Text) :
    unindented (indent depth ++ text) = unindented text := by
  induction depth with
  | zero => rfl
  | succ depth ih =>
      rw [indent, List.replicate_succ, List.flatten_cons, List.append_assoc]
      exact ih

theorem newline_not_mem_indent (depth : Nat) :
    '\n' ∉ indent depth := by
  intro h
  obtain ⟨step, hstep, inside⟩ := List.mem_flatten.mp h
  rw [(List.mem_replicate.mp hstep).2] at inside
  revert inside
  decide

/-- Lines without breaks are the lines of what they are rendered to. -/
theorem splitOn_lines {texts : List Text} (whole : ∀ text ∈ texts, '\n' ∉ text) (depth : Nat)
    (rest : Text) :
    ((lines texts).render depth ++ rest).splitOn '\n' =
      texts.map (indent depth ++ ·) ++ rest.splitOn '\n' := by
  rw [render]
  induction texts with
  | nil => rfl
  | cons text texts ih =>
      have clean : '\n' ∉ indent depth ++ text := fun h =>
        (List.mem_append.mp h).elim (newline_not_mem_indent depth)
          (whole text List.mem_cons_self)
      rw [List.flatMap_cons, line, List.append_assoc, List.append_assoc, List.singleton_append,
        List.splitOn_append_cons_self_of_not_mem clean,
        ih fun t ht => whole t (List.mem_cons_of_mem _ ht)]
      rfl

end Block

def row (key : Text) : Text := Block.indentStep ++ Text.quoted key ++ ",".toList

theorem readRows_row (key line : Text) (rest : List Text)
    (h : unindented line = unindented (row key)) :
    readRows (line :: rest) = (readRows rest).map (key :: ·) := by
  have literal : unindented (row key) = Text.quoted key ++ [','] := rfl
  have opens : Text.quoted key ++ [','] ≠ "];".toList := fun h => by cases h
  rw [readRows, h, literal, if_neg opens, Text.readLiteral_quoted]
  rfl

theorem readRows_rows (keys : List Text) (depth : Nat) (rest : List Text) :
    readRows ((keys.map row ++ ["];".toList]).map (Block.indent depth ++ ·) ++ rest) =
      some keys := by
  induction keys with
  | nil =>
      change readRows (_ :: rest) = _
      rw [readRows, Block.unindented_indent]
      rfl
  | cons key keys ih =>
      rw [List.map_cons, List.cons_append, List.map_cons, List.cons_append,
        readRows_row key _ _ (Block.unindented_indent depth _), ih]
      rfl

theorem keysLines_eq {keys : List Text} (some : keys ≠ []) :
    keysLines keys = "pub const KEYS: &[&str] = &[".toList :: (keys.map row ++ ["];".toList]) := by
  rw [keysLines, if_neg (by simpa using some)]
  rfl

theorem newline_not_mem_keysLines {keys : List Text} : ∀ line ∈ keysLines keys, '\n' ∉ line := by
  intro line h
  rw [keysLines] at h
  split at h
  · rw [List.mem_singleton.mp h]
    decide
  · rw [List.mem_append, List.mem_append, List.mem_map] at h
    rcases h with (first | ⟨key, -, rfl⟩) | last
    · rw [List.mem_singleton.mp first]
      decide
    · intro inside
      rcases List.mem_append.mp inside with before | comma
      · rcases List.mem_append.mp before with indent | literal
        · revert indent
          decide
        · exact Text.newline_not_mem_quoted key literal
      · revert comma
        decide
    · rw [List.mem_singleton.mp last]
      decide

theorem readKeys_keysLines (keys : List Text) (depth : Nat) (rest : List Text) :
    readKeys ((keysLines keys).map
      (Block.indent depth ++ ·) ++ rest) = some keys := by
  cases keys with
  | nil =>
      change readKeys (_ :: rest) = _
      rw [readKeys, Block.unindented_indent]
      rfl
  | cons key keys =>
      rw [keysLines_eq (List.cons_ne_nil key keys)]
      change readKeys (_ :: _) = _
      rw [readKeys, Block.unindented_indent]
      exact readRows_rows (key :: keys) depth rest

theorem hasKeys_of_stands {source : Text} {keys : List Text}
    (h : (Block.lines (keysLines keys)).Stands source) : HasKeys source keys := by
  obtain ⟨depth, front, back, rfl⟩ := h
  refine ⟨_, ?_, readKeys_keysLines keys depth (back.splitOn '\n')⟩
  rw [List.splitOn_append_cons_self, Block.splitOn_lines newline_not_mem_keysLines]
  exact List.suffix_append _ _

theorem emit_eq_ok {o : Options} {d : Descriptor} {source : Text} (h : emit o d = .ok source) :
    source = sourceText o d := by
  obtain ⟨_, -, same⟩ := Outcome.bind_eq_ok_iff.mp h
  exact (Except.ok.inj same).symm

theorem keysLines_mem_headerBlocks (o : Options) (d : Descriptor) :
    Block.lines (keysLines (sortedKeys d.tree)) ∈ headerBlocks o d :=
  List.mem_cons_of_mem _ (List.mem_cons_of_mem _ List.mem_cons_self)

theorem stands_source {o : Options} {d : Descriptor} {b : Block}
    (h : b.Stands ((classBlock o d).render 0)) : b.Stands (sourceText o d) := by
  have inSource := h.append (Block.line 0 ("// @generated by echoes-gen from ".toList ++
    d.relativePath ++ ". Do not edit.".toList) ++ ['\n']) []
  rw [List.append_nil, List.append_assoc, List.singleton_append] at inSource
  rw [sourceText]
  exact inSource

theorem hasKeys_of_emit {o : Options} {d : Descriptor} {source : Text}
    (h : emit o d = .ok source) : HasKeys source (sortedKeys d.tree) := by
  rw [emit_eq_ok h]
  have listed := List.mem_append_left (treeBlocks o.runtimePath 0 d.tree)
    (keysLines_mem_headerBlocks o d)
  exact hasKeys_of_stands (stands_source (Block.stands_nest listed _ _ _ 0))

end Phrasebook.Accessors
