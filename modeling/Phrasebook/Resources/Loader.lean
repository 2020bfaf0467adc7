import Phrasebook.Document
import Phrasebook.Resources.Directory
import Phrasebook.Resources.Embedded
import Phrasebook.Resources.Request
import Phrasebook.Settings.Basic

/-!
A loader reads a document by name from an embedded set and, where overrides are enabled, from disk.
Entries on disk replace embedded ones key by key.
-/

namespace Phrasebook

structure Resources where
  sets : List Embedded
  files : FileSystem

namespace Resources

/-- An embedded set by its number; there is nothing in a set that does not exist. -/
def set (r : Resources) (number : Nat) : Embedded := r.sets[number]?.getD ⟨[]⟩

end Resources

structure Loader where
  set : Nat
  disk : Option Directory
deriving DecidableEq, Repr

namespace Loader

def embeddedOnly (set : Nat) : Loader := ⟨set, none⟩

def ofOverrides (set : Nat) (o : OverrideSettings) : Loader :=
  ⟨set, if o.enabled then some ⟨o.root⟩ else none⟩

def readDisk (l : Loader) (r : Resources) (name : Text) : Option Text :=
  l.disk.bind fun d => d.read r.files name

/-- The copies of a document, the embedded one first. -/
def copies (l : Loader) (r : Resources) (name : Text) : Traced (List Text) where
  value := ((r.set l.set).read name).toList ++ (l.readDisk r name).toList
  requests := [⟨l.set, name⟩]

/-- Lays copies over each other; a later copy wins. The first that is not valid is the error. -/
def merge (lower : Option FlatMap) : List Text → Except Document.Error (Option FlatMap)
  | [] => .ok lower
  | text :: rest =>
    match Document.flatMapOf text with
    | .error e => .error e
    | .ok entries => merge (some (Dictionary.overlay (lower.getD []) entries)) rest

def load (l : Loader) (r : Resources) (name : Text) :
    Traced (Except Document.Error (Option FlatMap)) := do
  return merge none (← l.copies r name)

end Loader

end Phrasebook
