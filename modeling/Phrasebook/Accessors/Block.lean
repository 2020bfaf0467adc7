import Phrasebook.Text.Basic

/-!
Source text as nested blocks. The items of a block are set apart by blank lines, and what is inside
a block is indented by one step more than the block.
-/

namespace Phrasebook.Accessors

/-- An item of source: lines as they are, a function of one line, or a block of items. There may be
lines before a header. -/
inductive Block where
  | lines (text : List Text)
  | function (leading : List Text) (header body : Text)
  | scope (leading : List Text) (header : Text) (items : List Block)

namespace Block

def indentStep : Text := "    ".toList

def line (depth : Nat) (text : Text) : Text :=
  (List.replicate depth indentStep).flatten ++ text ++ ['\n']

mutual

def render (depth : Nat) : Block → Text
  | lines text => text.flatMap (line depth)
  | function leading header body =>
    leading.flatMap (line depth) ++ line depth (header ++ " \x7b".toList) ++
      line (depth + 1) body ++ line depth "\x7d".toList
  | scope leading header items =>
    leading.flatMap (line depth) ++ line depth (header ++ " \x7b".toList) ++
      renderItems (depth + 1) true items ++ line depth "\x7d".toList

/-- Items one after the other; every item but the first of its block follows a blank line. -/
def renderItems (depth : Nat) (isFirst : Bool) : List Block → Text
  | [] => []
  | item :: rest =>
    (if isFirst then [] else ['\n']) ++ render depth item ++ renderItems depth false rest

end

def nest (leading : List Text) (header : Text) (inner : List Text) (items : List Block) : Block :=
  match inner with
  | [] => scope leading header items
  | next :: rest => scope leading header [nest [] next rest items]

end Block

end Phrasebook.Accessors
