import Phrasebook.Settings.Basic
import Phrasebook.Json.Value

/-!
Settings as they stand in a file: an object with the names of the fields, or an array with their
values in order. What is missing has its default, unknown names do not count, and a name that is
given twice or a value of another kind is refused.
-/

namespace Phrasebook.Settings

abbrev Slots := List (Option Json.Value)

def slotsOfMembers (names : List Text) (slots : Slots) :
    List (Option Text × Json.Value) → Option Slots
  | [] => some slots
  | (key, v) :: rest => do
    let key ← key
    match names.idxOf? key with
    | none => slotsOfMembers names slots rest
    | some i =>
      match slots[i]? with
      | some none => slotsOfMembers names (slots.set i (some v)) rest
      | _ => none

/-- The values of named fields, from an object or an array. -/
def slots (names : List Text) : Json.Value → Option Slots
  | .object members => slotsOfMembers names (names.map fun _ => none) members
  | .array items =>
    if items.length ≤ names.length then
      some (items.map some ++ List.replicate (names.length - items.length) none)
    else none
  | _ => none

def slot {α : Type} (read : Json.Value → Option α) (default : α) (slots : Slots) (i : Nat) :
    Option α :=
  match slots[i]? with
  | some (some v) => read v
  | _ => some default

def text? : Json.Value → Option Text
  | .string s => s
  | _ => none

def boolean? : Json.Value → Option Bool
  | .boolean b => some b
  | _ => none

def texts? : Json.Value → Option (List Text)
  | .array items => items.mapM text?
  | _ => none

def path? (v : Json.Value) : Option Path := (text? v).map Path.ofText

def overrideFields : List Text := ["enabled".toList, "root".toList]

def overrides? (v : Json.Value) : Option OverrideSettings := do
  let slots ← slots overrideFields v
  some {
    enabled := ← slot boolean? OverrideSettings.default.enabled slots 0
    root := ← slot path? OverrideSettings.default.root slots 1 }

def fields : List Text :=
  ["projectDir".toList, includeField, excludeField, "outputDir".toList, "resourcesPath".toList,
    "runtimeCrate".toList, "fileOverrides".toList]

def ofJson (v : Json.Value) : Option Settings := do
  let slots ← slots fields v
  some {
    projectDir := ← slot text? default.projectDir slots 0
    includePatterns := ← slot texts? default.includePatterns slots 1
    excludePatterns := ← slot texts? default.excludePatterns slots 2
    outputDir := ← slot text? default.outputDir slots 3
    resourcesPath := ← slot text? default.resourcesPath slots 4
    runtimeCrate := ← slot text? default.runtimeCrate slots 5
    fileOverrides := ← slot overrides? default.fileOverrides slots 6 }

def read (text : Text) : Option Settings := (Json.read text).bind ofJson

end Phrasebook.Settings
