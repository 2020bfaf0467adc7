import Phrasebook.Toml.Strings
import Phrasebook.Toml.Numbers

/-!
How members are put into tables. A dotted key makes the tables on its way; such tables may be
extended by further dotted keys, while a table that has its own header, or an inline table, is
closed to them.
-/

namespace Phrasebook.Toml

/-- How a table came to be: by its own header, on the way to a deeper header, or by a dotted key. -/
inductive Origin where
  | header
  | implied
  | dotted
deriving DecidableEq, Repr

/-- Tables while the text is read, members in the order of their making. An array of tables is
its earlier elements and the last, which alone can still grow. -/
inductive Node where
  | leaf (value : Value)
  | table (origin : Origin) (members : List (Text × Node))
  | tables (earlier : List (List (Text × Node))) (last : List (Text × Node))

abbrev Members := List (Text × Node)

namespace Members

def find? (key : Text) : Members → Option Node
  | [] => none
  | (k, n) :: rest => if k = key then some n else find? key rest

def replace (key : Text) (node : Node) (ms : Members) : Members :=
  ms.map fun (k, n) => if k = key then (k, node) else (k, n)

def remove (key : Text) (ms : Members) : Members := ms.filter fun (k, _) => k != key

/-- Puts a value under a dotted key. The last table on the way has to be one that dotted keys
made; the tables before it may also be implied by headers. -/
def put (key : Text) (value : Value) : (path : List Text) → Members → Option Members
  | [], ms => if (ms.find? key).isSome then none else some (ms ++ [(key, .leaf value)])
  | segment :: path, ms =>
    match ms.find? segment with
    | none => (put key value path []).map fun below => ms ++ [(segment, .table .dotted below)]
    | some (.table origin below) =>
      if origin = .header ∨ (path.isEmpty ∧ origin ≠ .dotted) then none
      else (put key value path below).map fun below => ms.replace segment (.table origin below)
    | some (.tables earlier last) =>
      if path.isEmpty then none
      else (put key value path last).map fun last => ms.replace segment (.tables earlier last)
    | some (.leaf _) => none

abbrev Pair := List Text × Value

def putPair (ms : Members) (pair : Pair) : Option Members :=
  ms.put (pair.1.getLastD []) pair.2 pair.1.dropLast

def putPairs : List Pair → Members → Option Members
  | [], ms => some ms
  | pair :: rest, ms => (ms.putPair pair).bind (putPairs rest)

end Members

mutual

def Node.value : Node → Value
  | .leaf v => v
  | .table _ ms => .table (memberValues ms)
  | .tables earlier last => .array (tableValues earlier ++ [.table (memberValues last)])

def memberValues : List (Text × Node) → List (Text × Value)
  | [] => []
  | (k, n) :: rest => (k, n.value) :: memberValues rest

def tableValues : List (List (Text × Node)) → List Value
  | [] => []
  | ms :: rest => .table (memberValues ms) :: tableValues rest

end

end Phrasebook.Toml
