import Phrasebook.Lookup.Family

/-!
A catalog keeps the families that have been read, by the names of their documents. A family is read
on first use and stays; one that cannot be read is tried again the next time.
-/

namespace Phrasebook

structure Source where
  set : Nat
  file : Text
deriving DecidableEq, Repr

structure Catalog where
  overrides : OverrideSettings
  families : Dictionary Family
deriving DecidableEq, Repr

namespace Catalog

def empty (overrides : OverrideSettings) : Catalog := ⟨overrides, []⟩

def size (c : Catalog) : Nat := c.families.length

def isEmpty (c : Catalog) : Bool := c.families.isEmpty

def put (c : Catalog) (file : Text) (f : Family) : Catalog :=
  { c with families := c.families.insert file f }

/-- The family of a source, which is known by its file alone. -/
def family (c : Catalog) (r : Resources) (source : Source) :
    Traced (Except Family.Error Family × Catalog) := do
  match c.families.find? source.file with
  | some f => return (.ok f, c)
  | none =>
    match ← Family.read (.ofOverrides source.set c.overrides) r source.file with
    | .error e => return (.error e, c)
    | .ok f => return (.ok f, c.put source.file f)

def resolve (c : Catalog) (r : Resources) (source : Source) (key : Text) (l : Locale) :
    Traced (Except Family.Error Text × Catalog) := do
  match ← c.family r source with
  | (.error e, c) => return (.error e, c)
  | (.ok f, c) =>
    let (text, f) ← f.resolve r key l
    return (.ok text, c.put source.file f)

end Catalog

end Phrasebook
