import Mathlib.Data.List.TakeWhile
import Phrasebook.Proofs.Accessors.Identifier
import Phrasebook.Proofs.Text.Literal

/-! Source as it is read: signs of code, literals with their values, and comments. Pieces of source
that are put one after the other are read back one after the other, each as what it is, whatever
text stands inside a literal, and whatever text of one line stands inside a comment. -/
namespace Phrasebook.Accessors

inductive Lexeme where
  | code (sign : Char)
  | literal (value : Text)
  | comment (text : Text)
deriving DecidableEq

/-- The signs with which something else than code starts. -/
def openers : Text := ['"', '\'', '/']

/-- Text that is code, whatever stands around it. -/
def Code (text : Text) : Prop := ∀ c ∈ text, c ∉ openers

instance (text : Text) : Decidable (Code text) :=
  decidable_of_iff (text.all (fun c => decide (c ∉ openers)) = true) <| by
    simp only [List.all_eq_true, decide_eq_true_eq, Code]

namespace Code

theorem append {text more : Text} (h : Code text) (h' : Code more) : Code (text ++ more) :=
  List.forall_mem_append.mpr ⟨h, h'⟩

theorem replicate {text : Text} (h : Code text) (count : Nat) :
    Code (List.replicate count text).flatten := by
  intro c there
  obtain ⟨part, listed, inside⟩ := List.mem_flatten.mp there
  rw [(List.mem_replicate.mp listed).2] at inside
  exact h c inside

end Code

/-- How source is read. A literal has a blank before it, so that no word before it makes another
literal of it, and a comment goes on to the end of its line. -/
inductive Lexed : Text → List Lexeme → Prop where
  | done : Lexed [] []
  | code {sign : Char} {rest : Text} {lexemes : List Lexeme} (plain : sign ∉ openers)
    (further : Lexed rest lexemes) : Lexed (sign :: rest) (.code sign :: lexemes)
  | literal {text rest value : Text} {lexemes : List Lexeme}
    (read : Text.readLiteral text = some (value, rest)) (further : Lexed rest lexemes) :
    Lexed (' ' :: text) (.code ' ' :: .literal value :: lexemes)
  | comment {text : Text} {lexemes : List Lexeme}
    (further : Lexed (text.dropWhile (· ≠ '\n')) lexemes) :
    Lexed ('/' :: '/' :: text) (.comment (text.takeWhile (· ≠ '\n')) :: lexemes)

namespace Lexed

theorem quote_of_readLiteral {text value rest : Text}
    (read : Text.readLiteral text = some (value, rest)) : ∃ inside, text = '"' :: inside := by
  unfold Text.readLiteral at read
  split at read
  · exact ⟨_, rfl⟩
  · cases read

theorem not_quote {inside : Text} {lexemes : List Lexeme} : ¬ Lexed ('"' :: inside) lexemes := by
  intro h
  cases h with
  | code plain => exact plain (by decide)

theorem unique {source : Text} {lexemes others : List Lexeme} (h : Lexed source lexemes)
    (h' : Lexed source others) : lexemes = others := by
  induction h generalizing others with
  | done =>
      cases h'
      rfl
  | code plain further ih =>
      cases h' with
      | code _ further' => rw [ih further']
      | literal read _ =>
          -- A blank before a quote is never code by itself: the quote could not be read.
          obtain ⟨inside, rfl⟩ := quote_of_readLiteral read
          exact (not_quote further).elim
      | comment _ => exact (plain (by decide)).elim
  | literal read further ih =>
      cases h' with
      | code _ further' =>
          obtain ⟨inside, rfl⟩ := quote_of_readLiteral read
          exact (not_quote further').elim
      | literal read' further' =>
          cases Option.some.inj (read.symm.trans read')
          rw [ih further']
  | comment further ih =>
      cases h' with
      | code plain _ => exact (plain (by decide)).elim
      | comment further' => rw [ih further']

theorem iff_eq {source : Text} {lexemes : List Lexeme} (h : Lexed source lexemes)
    (others : List Lexeme) : Lexed source others ↔ others = lexemes :=
  ⟨fun h' => h'.unique h, fun same => same ▸ h⟩

variable {rest : Text} {lexemes : List Lexeme}

theorem append_code {text : Text} (plain : Code text) (h : Lexed rest lexemes) :
    Lexed (text ++ rest) (text.map .code ++ lexemes) := by
  induction text with
  | nil => exact h
  | cons c text ih =>
      obtain ⟨here, later⟩ := List.forall_mem_cons.mp plain
      exact .code here (ih later)

theorem append_quoted (value : Text) (h : Lexed rest lexemes) :
    Lexed (' ' :: Text.quoted value ++ rest) (.code ' ' :: .literal value :: lexemes) :=
  .literal (Text.readLiteral_quoted value rest) h

theorem append_comment {text : Text} (inLine : '\n' ∉ text) (h : Lexed rest lexemes) :
    Lexed ("//".toList ++ text ++ '\n' :: rest) (.comment text :: .code '\n' :: lexemes) := by
  have within : ∀ c ∈ text, decide (c ≠ '\n') = true := fun c there =>
    decide_eq_true fun same => inLine (same ▸ there)
  have whole : (text ++ '\n' :: rest).takeWhile (· ≠ '\n') = text := by
    rw [List.takeWhile_append_of_pos within]
    exact List.append_nil text
  have left : (text ++ '\n' :: rest).dropWhile (· ≠ '\n') = '\n' :: rest :=
    List.dropWhile_append_of_pos within
  have ended : Lexed ((text ++ '\n' :: rest).dropWhile (· ≠ '\n')) (.code '\n' :: lexemes) := by
    rw [left]
    exact .code (by decide) h
  have read := Lexed.comment ended
  rwa [whole] at read

theorem newline_not_mem {source text : Text} (h : Lexed source (.comment text :: lexemes)) :
    '\n' ∉ text := by
  cases h with
  | comment _ =>
      intro there
      have other := List.mem_takeWhile_imp there
      exact of_decide_eq_true other rfl

end Lexed

/-- A piece of source: text that is fixed, the identifier of a name, a literal with a blank before
it, or a comment with the end of its line. -/
inductive Piece where
  | fixed (text : Text)
  | named (name : Text)
  | literal (value : Text)
  | comment (text : Text)
deriving DecidableEq

namespace Piece

/-- A piece as it is written. -/
def text : Piece → Text
  | fixed text => text
  | named name => identifier name
  | literal value => ' ' :: Text.quoted value
  | comment text => "//".toList ++ text ++ ['\n']

/-- A piece as it is meant to be read. -/
def lexemes : Piece → List Lexeme
  | fixed text => text.map .code
  | named name => (identifier name).map .code
  | literal value => [.code ' ', .literal value]
  | comment text => [.comment text, .code '\n']

/-- Fixed text is code, and a comment takes one line. -/
def Sound : Piece → Prop
  | fixed text => Code text
  | named _ => True
  | literal _ => True
  | comment text => '\n' ∉ text

/-- Pieces as they are written one after the other. -/
def written (pieces : List Piece) : Text := pieces.flatMap text

/-- Pieces as they are meant to be read one after the other. -/
def meant (pieces : List Piece) : List Lexeme := pieces.flatMap lexemes

end Piece

theorem Word.code {word : Text} (isWord : Word word) : Code word := by
  intro c there opens
  have noSign : openers.all (fun c => decide (¬ (c.isAlphanum = true ∨ c = '_'))) = true := by
    decide
  have apart := List.all_eq_true.mp noSign c opens
  exact of_decide_eq_true apart (isWord.chars c there)

theorem identifier_code (name : Text) : Code (identifier name) := by
  rcases identifier_usable name with ⟨k, keyword, -, raw⟩ | ⟨word, -⟩
  · have words : ∀ k ∈ keywords, Word k := by decide +kernel
    have lead : Code "r#".toList := by decide
    exact raw ▸ lead.append (words k keyword).code
  · exact word.code

/-- Sound pieces are read back as they are meant, before anything that can be read. -/
theorem Lexed.append_written {pieces : List Piece} (sound : ∀ p ∈ pieces, p.Sound) {rest : Text}
    {lexemes : List Lexeme} (h : Lexed rest lexemes) :
    Lexed (Piece.written pieces ++ rest) (Piece.meant pieces ++ lexemes) := by
  induction pieces with
  | nil => exact h
  | cons p pieces ih =>
      obtain ⟨here, later⟩ := List.forall_mem_cons.mp sound
      have further := ih later
      rw [Piece.written, Piece.meant, List.flatMap_cons, List.flatMap_cons, List.append_assoc,
        List.append_assoc]
      cases p with
      | fixed text => exact further.append_code here
      | named name => exact further.append_code (identifier_code name)
      | literal value => exact further.append_quoted value
      | comment text =>
          rw [Piece.text, List.append_assoc, List.singleton_append]
          exact further.append_comment here

end Phrasebook.Accessors
