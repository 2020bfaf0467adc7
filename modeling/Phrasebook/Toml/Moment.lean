import Phrasebook.Toml.Numbers

/-!
Tables that stand for dates. A table whose first key is a certain word is the date that it holds
there as a string, and nothing else in it counts. Every other table has its members put in key
order. The outermost table is never a date.
-/

namespace Phrasebook.Toml

def momentKey : Text := "$__toml_private_datetime".toList

def momentOf? : Value → Option Value
  | .string s => if moment .inString s = some [] then some (.moment s) else none
  | _ => none

mutual

/-- The value that is meant by one that was read, unless it holds a marked table without a date. -/
def Value.meaning? : Value → Option Value
  | .array items => (itemMeanings? items).map .array
  | .table [] => some (.table [])
  | .table ((key, v) :: rest) =>
    if key = momentKey then momentOf? v
    else do
      let v ← v.meaning?
      let rest ← memberMeanings? rest
      some (.table (Dictionary.ofList ((key, v) :: rest)))
  | v => some v

def itemMeanings? : List Value → Option (List Value)
  | [] => some []
  | v :: rest => do
    let v ← v.meaning?
    let rest ← itemMeanings? rest
    some (v :: rest)

def memberMeanings? : List (Text × Value) → Option (List (Text × Value))
  | [] => some []
  | (key, v) :: rest => do
    let v ← v.meaning?
    let rest ← memberMeanings? rest
    some ((key, v) :: rest)

end

end Phrasebook.Toml
