import Phrasebook.Session.Command

/-! What the steps of a session do to its localizers and its journal, one equation for each. -/
namespace Phrasebook

/-- The text of what was received under a name. -/
def Happening.receivedBy (name : Text) : Happening → Option Text
  | .received receiver text => if receiver = name then some text else none
  | .requested _ => none

def deliveries (name : Text) (journal : List Happening) : List Text :=
  journal.filterMap (Happening.receivedBy name)

theorem deliveries_requested (name : Text) (journal : List Happening) (requests : List Request) :
    deliveries name (journal ++ requests.map .requested) = deliveries name journal := by
  have nothing : deliveries name (requests.map .requested) = [] := by
    rw [deliveries, List.filterMap_map]
    exact List.filterMap_eq_nil_iff.mpr fun _ _ => rfl
  rw [deliveries, List.filterMap_append]
  exact (congrArg _ nothing).trans (List.append_nil _)

theorem deliveries_received (name receiver text : Text) (journal : List Happening) :
    deliveries name (journal ++ [.received receiver text]) =
      deliveries name journal ++ if receiver = name then [text] else [] := by
  have last : deliveries name [.received receiver text] =
      if receiver = name then [text] else [] := by
    by_cases same : receiver = name
    · simp [deliveries, Happening.receivedBy, same]
    · simp [deliveries, Happening.receivedBy, same]
  rw [← last]
  exact List.filterMap_append

namespace Session

theorem withLocalizer_cases {P : Session → Prop} {s : Session}
    {f : Nat → Localizer → Answer × Session} (refused : P s)
    (done : ∀ (i : Nat) (z : Localizer), s.current = some i → s.localizers[i]? = some z →
      P (f i z).2) : P (s.withLocalizer f).2 := by
  rw [withLocalizer]
  cases current : s.current with
  | none => exact refused
  | some i =>
      cases there : s.localizers[i]? with
      | none =>
          simp only [there]
          exact refused
      | some z =>
          simp only [there]
          exact done i z current there

theorem getElem?_setLocalizer {s : Session} {i : Nat} {z z' : Localizer}
    (hz : s.localizers[i]? = some z) (j : Nat) :
    (s.setLocalizer i z').localizers[j]? = if i = j then some z' else s.localizers[j]? := by
  have inside : i < s.localizers.length := (List.getElem?_eq_some_iff.mp hz).1
  change (s.localizers.set i z')[j]? = _
  rw [List.getElem?_set, if_pos inside]

theorem length_setLocalizer (s : Session) (i : Nat) (z : Localizer) :
    (s.setLocalizer i z).localizers.length = s.localizers.length := List.length_set

theorem mem_addLocalizer {s : Session} {new z : Localizer} {i : Nat}
    (hz : (s.addLocalizer new).2.localizers[i]? = some z) :
    s.localizers[i]? = some z ∨ z = new := by
  change (s.localizers ++ [new])[i]? = some z at hz
  rw [List.getElem?_append] at hz
  split at hz
  · exact .inl hz
  · exact .inr (List.mem_singleton.mp (List.mem_of_getElem? hz))

theorem getElem?_addLocalizer {s : Session} {z : Localizer} {i : Nat}
    (hz : s.localizers[i]? = some z) (new : Localizer) :
    (s.addLocalizer new).2.localizers[i]? = some z :=
  (List.getElem?_append_left (List.getElem?_eq_some_iff.mp hz).1).trans hz

/-- A listener for a text asks its localizer, and hears nothing where there is no text. -/
theorem deliver_text {s : Session} {i : Nat} {z : Localizer} (hz : s.localizers[i]? = some z)
    (l : Locale) (name : Text) (source : Source) (key : Text) :
    s.deliver i l (.text name source key) =
      match s.settle i (z.resolve s.resources source key l) with
      | (.ok text, s') => s'.note (.received name text)
      | (.error _, s') => s' := by
  rw [deliver, hz]
  simp only [settle, absorb]
  cases (z.resolve s.resources source key l).value.1 <;> rfl

theorem value_of_bound {s : Session} {name : Text} {b : BoundUnit} {z : Localizer}
    (found : s.units.find? name = some b) (hz : s.localizers[b.localizer]? = some z) :
    s.value name =
      (textAnswer (b.unit.value z s.resources).value.1,
        { (s.absorb (b.unit.value z s.resources)).2.setLocalizer b.localizer
            (b.unit.value z s.resources).value.2.2 with
          units := s.units.insert name
            { b with unit := (b.unit.value z s.resources).value.2.1 } }) := by
  rw [value, found]
  simp only [hz]
  rfl

end Session

end Phrasebook
