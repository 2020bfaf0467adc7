import Phrasebook.Resources.Name

/-!
Documents that are part of the program, as a list of names and contents. A request is answered by
the first document whose name fits it.
-/

namespace Phrasebook

structure Embedded where
  documents : List (Text × Text)
deriving DecidableEq, Repr

namespace Embedded

def size (e : Embedded) : Nat := e.documents.length

def isEmpty (e : Embedded) : Bool := e.documents.isEmpty

/-- The contents of the first document that fits a requested name. -/
def read (e : Embedded) (requested : Text) : Option Text :=
  (e.documents.find? fun (name, _) => Resource.nameMatches name requested).map (·.2)

def names (e : Embedded) : List Text := e.documents.map fun (name, _) => Resource.normalize name

end Embedded

end Phrasebook
