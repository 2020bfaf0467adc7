import Phrasebook.Text.Basic

/-!
Identifiers of the generated Rust source. Every name has one: characters that cannot stand in an
identifier become underscores, and words of the language are written raw or, where that is not
possible, with an underscore after them.
-/

namespace Phrasebook.Accessors

def rawWords : List Text :=
  ["abstract", "as", "async", "await", "become", "box", "break", "const", "continue", "do",
    "dyn", "else", "enum", "extern", "false", "final", "fn", "for", "gen", "if", "impl", "in",
    "let", "loop", "macro", "match", "mod", "move", "mut", "override", "priv", "pub", "ref",
    "return", "static", "struct", "trait", "true", "try", "type", "typeof", "unsafe", "unsized",
    "use", "virtual", "where", "while", "yield"].map String.toList

/-- Words that cannot be identifiers in any form. -/
def reservedWords : List Text := Text.segments ' ' "crate self Self super _".toList

def isIdentifierChar (c : Char) : Bool := c.isAlphanum || c == '_'

/-- The name over letters, digits and underscores; it is not empty and no digit leads. -/
def sanitize (name : Text) : Text :=
  match name.map fun c => if isIdentifierChar c then c else '_' with
  | [] => ['_']
  | c :: rest => if c.isDigit then '_' :: c :: rest else c :: rest

def identifier (name : Text) : Text :=
  let word := sanitize name
  if word ∈ reservedWords then word ++ ['_']
  else if word ∈ rawWords then "r#".toList ++ word
  else word

end Phrasebook.Accessors
