import Phrasebook.Locale.Identifier
import Phrasebook.Resources.Loader

/-!
A family is a document together with its siblings for locales. A key is looked up in the sibling of
the whole locale, then in that of its bare language, then in the document itself. The siblings of
the last locale are kept, and are read again only when another locale is asked for.
-/

namespace Phrasebook

structure Layers where
  locale : Locale
  specific : Option FlatMap
  language : Option FlatMap
deriving DecidableEq, Repr

/-- The maps of the siblings that exist, in the order in which they are searched. -/
def Layers.tiers (layers : Layers) : List FlatMap :=
  layers.specific.toList ++ layers.language.toList

structure Family where
  file : Text
  loader : Loader
  invariant : FlatMap
  layers : Option Layers
deriving DecidableEq, Repr

namespace Family

inductive Error where
  | missing (file : Text)
  | invalid (file : Text) (cause : Document.Error)
deriving DecidableEq, Repr

def Error.message : Error → Text
  | missing file => "Translation resource '".toList ++ file ++ "' could not be found".toList
  | invalid file cause =>
    "Translation resource '".toList ++ file ++ "' is invalid: ".toList ++ cause.message

def read (loader : Loader) (r : Resources) (file : Text) : Traced (Except Error Family) := do
  match ← loader.load r file with
  | .ok (some entries) => return .ok ⟨file, loader, entries, none⟩
  | .ok none => return .error (.missing file)
  | .error cause => return .error (.invalid file cause)

/-- The sibling for a locale; one that is not valid counts as absent. -/
def readSibling (f : Family) (r : Resources) (l : Locale) : Traced (Option FlatMap) := do
  match ← f.loader.load r (Resource.siblingName f.file l.name) with
  | .ok entries => return entries
  | .error _ => return none

/-- The siblings for a locale; the invariant one has none. -/
def readLayers (f : Family) (r : Resources) (l : Locale) : Traced Layers := do
  if l.isInvariant then return ⟨l, none, none⟩
  let specific ← f.readSibling r l
  match l.languageOnly with
  | none => return ⟨l, specific, none⟩
  | some bare => return ⟨l, specific, ← f.readSibling r bare⟩

def prepare (f : Family) (r : Resources) (l : Locale) : Traced Family :=
  if f.layers.any fun kept => kept.locale = l then return f
  else do return { f with layers := some (← f.readLayers r l) }

def tiers (f : Family) : List FlatMap :=
  (f.layers.map Layers.tiers).getD [] ++ [f.invariant]

/-- Stands for the text of a key that no tier has. -/
def missingText (key : Text) : Text := "TRANSLATION NOT FOUND: ".toList ++ key

def lookup (f : Family) (key : Text) : Text :=
  (f.tiers.findSome? fun entries => entries.find? key).getD (missingText key)

def resolve (f : Family) (r : Resources) (key : Text) (l : Locale) : Traced (Text × Family) := do
  let f ← f.prepare r l
  return (f.lookup key, f)

end Family

end Phrasebook
