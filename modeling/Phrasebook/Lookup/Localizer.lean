import Phrasebook.Lookup.Catalog
import Phrasebook.Lookup.Switchboard

/-!
A localizer joins a switchboard to a catalog, so that texts follow the current locale. A unit is one
key of a source; it keeps its text together with the count of switches at which it was resolved.
-/

namespace Phrasebook

/-- Who listens to a switchboard under a name of its own: to the locale, or to the text of a key. -/
inductive Listener where
  | locale (name : Text)
  | text (name : Text) (source : Source) (key : Text)
deriving DecidableEq, Repr

structure Localizer where
  switchboard : Switchboard Listener
  catalog : Catalog
deriving DecidableEq, Repr

namespace Localizer

def start (l : Locale) (overrides : OverrideSettings) : Localizer :=
  ⟨.start l, .empty overrides⟩

def current (z : Localizer) : Locale := z.switchboard.current

def version (z : Localizer) : UInt64 := z.switchboard.version

def family (z : Localizer) (r : Resources) (source : Source) :
    Traced (Except Family.Error Family × Localizer) := do
  let (result, catalog) ← z.catalog.family r source
  return (result, { z with catalog })

def resolve (z : Localizer) (r : Resources) (source : Source) (key : Text) (l : Locale) :
    Traced (Except Family.Error Text × Localizer) := do
  let (result, catalog) ← z.catalog.resolve r source key l
  return (result, { z with catalog })

def resolveCurrent (z : Localizer) (r : Resources) (source : Source) (key : Text) :
    Traced (Except Family.Error Text × Localizer) :=
  z.resolve r source key z.current

end Localizer

/-- One key of a source with the text that was last found for it. -/
structure TextUnit where
  source : Source
  key : Text
  kept : Option (UInt64 × Text)
deriving DecidableEq, Repr

namespace TextUnit

def ofKey (source : Source) (key : Text) : TextUnit := ⟨source, key, none⟩

/-- The text that is kept, if no switch has happened since. -/
def kept? (u : TextUnit) (version : UInt64) : Option Text :=
  (u.kept.filter fun (since, _) => since = version).map (·.2)

/-- The text for the current locale; an error leaves what is kept. -/
def value (u : TextUnit) (z : Localizer) (r : Resources) :
    Traced (Except Family.Error Text × TextUnit × Localizer) := do
  match u.kept? z.version with
  | some text => return (.ok text, u, z)
  | none =>
    match ← z.resolveCurrent r u.source u.key with
    | (.error e, z) => return (.error e, u, z)
    | (.ok text, z) => return (.ok text, { u with kept := some (z.version, text) }, z)

end TextUnit

end Phrasebook
