import Phrasebook.Lookup.Localizer
import Phrasebook.Proofs.Dictionary
import Phrasebook.Proofs.Lookup.LayerCache

/-! A localizer over documents that do not change. A family that it has read stays, and whatever
layers the family keeps, a look-up gives what would be read now. So an older text is still the right
one as long as the locale has not been switched. -/
namespace Phrasebook

namespace Family

/-- The layers that a family keeps are those that can be read. -/
def Settled (r : Resources) (f : Family) : Prop :=
  ∀ kept, f.layers = some kept → kept = (f.readLayers r kept.locale).value

theorem settled_keeping (f : Family) (r : Resources) (l : Locale) : (f.keeping r l).Settled r := by
  intro kept same
  cases same
  rw [readLayers_locale]
  rfl

theorem settled_of_read {loader : Loader} {r : Resources} {file : Text} {f : Family}
    (made : (read loader r file).value = .ok f) : f.Settled r := by
  intro kept same
  rw [(fresh_of_read made).2] at same
  cases same

theorem resolve_of_settled {f : Family} {r : Resources} (settled : f.Settled r) (key : Text)
    (l : Locale) : (f.resolve r key l).value = ((f.keeping r l).lookup key, f.keeping r l) := by
  by_cases switch : ∀ kept, f.layers = some kept → kept.locale ≠ l
  · rw [resolve_of_switch switch]
  · simp only [not_forall, not_not] at switch
    obtain ⟨kept, layers, rfl⟩ := switch
    have same : f = f.keeping r kept.locale := by
      obtain ⟨file, loader, invariant, _⟩ := f
      cases layers
      exact congrArg _ (congrArg some (settled kept rfl))
    rw [same, resolve_keeping_self]
    rfl

end Family

namespace Catalog

/-- Every family of a catalog is settled. -/
def Settled (r : Resources) (c : Catalog) : Prop :=
  ∀ file f, c.families.find? file = some f → f.Settled r

/-- The families of a catalog stay in a later one; only what they keep may differ. -/
def Extends (r : Resources) (c c' : Catalog) : Prop :=
  ∀ file f, c.families.find? file = some f →
    ∃ f', c'.families.find? file = some f' ∧ ∀ l, f'.keeping r l = f.keeping r l

theorem find?_put (c : Catalog) (file other : Text) (f : Family) :
    (c.put file f).families.find? other =
      if other = file then some f else c.families.find? other :=
  Dictionary.find?_insert file other f c.families

theorem Settled.put {c : Catalog} {r : Resources} (h : c.Settled r) (file : Text) {f : Family}
    (settled : f.Settled r) : (c.put file f).Settled r := by
  intro other g found
  rw [find?_put] at found
  split at found
  · cases found
    exact settled
  · exact h other g found

theorem Extends.refl (r : Resources) (c : Catalog) : c.Extends r c :=
  fun _ f found => ⟨f, found, fun _ => rfl⟩

theorem Extends.trans {r : Resources} {c c' c'' : Catalog} (h : c.Extends r c')
    (h' : c'.Extends r c'') : c.Extends r c'' := by
  intro file f found
  obtain ⟨f', found', same⟩ := h file f found
  obtain ⟨f'', found'', same'⟩ := h' file f' found'
  exact ⟨f'', found'', fun l => (same' l).trans (same l)⟩

/-- A family may be put where there was none, or in place of itself with other layers. -/
theorem extends_put {c : Catalog} {r : Resources} {file : Text} {f : Family}
    (same : ∀ g, c.families.find? file = some g → ∀ l, f.keeping r l = g.keeping r l) :
    c.Extends r (c.put file f) := by
  intro other g found
  rw [find?_put]
  split
  · rename_i equal
    exact ⟨f, rfl, same g (equal ▸ found)⟩
  · exact ⟨g, found, fun _ => rfl⟩

/-- What a catalog is after it has been asked for something: settled, with the families that it had
before. -/
structure Grows (r : Resources) (c c' : Catalog) : Prop where
  settled : c'.Settled r
  extended : c.Extends r c'

theorem Settled.grows {c : Catalog} {r : Resources} (h : c.Settled r) : Grows r c c :=
  ⟨h, .refl r c⟩

theorem Settled.grows_put {c : Catalog} {r : Resources} (h : c.Settled r) {file : Text}
    {f : Family} (settled : f.Settled r)
    (same : ∀ g, c.families.find? file = some g → ∀ l, f.keeping r l = g.keeping r l) :
    Grows r c (c.put file f) :=
  ⟨h.put file settled, extends_put same⟩

theorem family_of_found {c : Catalog} {r : Resources} {source : Source} {f : Family}
    (found : c.families.find? source.file = some f) :
    (c.family r source).value = (.ok f, c) := by
  rw [family, found]
  rfl

theorem family_of_absent {c : Catalog} {r : Resources} {source : Source}
    (absent : c.families.find? source.file = none) :
    (c.family r source).value =
      match (Family.read (.ofOverrides source.set c.overrides) r source.file).value with
      | .error e => (.error e, c)
      | .ok f => (.ok f, c.put source.file f) := by
  rw [family, absent, Traced.value_bind]
  cases (Family.read (.ofOverrides source.set c.overrides) r source.file).value <;> rfl

/-- Asking for a family gives one that is in the catalog from then on. -/
theorem family_grows {c : Catalog} {r : Resources} (settled : c.Settled r) (source : Source) :
    Grows r c (c.family r source).value.2 ∧
      ∀ f, (c.family r source).value.1 = .ok f →
        (c.family r source).value.2.families.find? source.file = some f := by
  cases found : c.families.find? source.file with
  | some f =>
      rw [family_of_found found]
      refine ⟨settled.grows, fun g same => ?_⟩
      cases same
      exact found
  | none =>
      rw [family_of_absent found]
      cases made : (Family.read (.ofOverrides source.set c.overrides) r source.file).value with
      | error e => exact ⟨settled.grows, fun f same => by cases same⟩
      | ok f =>
          refine ⟨settled.grows_put (Family.settled_of_read made) fun g there => ?_,
            fun g same => ?_⟩
          · cases found.symm.trans there
          · cases same
            exact (find?_put c source.file source.file f).trans (if_pos rfl)

theorem resolve_of_error {c c' : Catalog} {r : Resources} {source : Source} {e : Family.Error}
    (answered : (c.family r source).value = (.error e, c')) (key : Text) (l : Locale) :
    (c.resolve r source key l).value = (.error e, c') := by
  rw [resolve, Traced.value_bind, answered]
  rfl

theorem resolve_of_family {c c' : Catalog} {r : Resources} {source : Source} {f : Family}
    (answered : (c.family r source).value = (.ok f, c')) (settled : f.Settled r) (key : Text)
    (l : Locale) : (c.resolve r source key l).value =
      (.ok ((f.keeping r l).lookup key), c'.put source.file (f.keeping r l)) := by
  have answer := Family.resolve_of_settled settled key l
  rw [resolve, Traced.value_bind, answered]
  exact congrArg (fun a => (Except.ok a.1, c'.put source.file a.2)) answer

/-- A look-up leaves a catalog with the family that answered it, and what it finds there is the
answer. -/
theorem resolve_grows {c : Catalog} {r : Resources} (settled : c.Settled r) (source : Source)
    (key : Text) (l : Locale) :
    Grows r c (c.resolve r source key l).value.2 ∧
      ∀ text, (c.resolve r source key l).value.1 = .ok text →
        ∃ f, (c.resolve r source key l).value.2.families.find? source.file = some f ∧
          text = (f.keeping r l).lookup key := by
  obtain ⟨grows, registered⟩ := family_grows settled source
  rcases answered : (c.family r source).value with ⟨e | f, c'⟩
  · rw [answered] at grows
    rw [resolve_of_error answered]
    exact ⟨grows, fun text same => by cases same⟩
  · rw [answered] at grows registered
    have found : c'.families.find? source.file = some f := registered f rfl
    have known : f.Settled r := grows.settled _ _ found
    rw [resolve_of_family answered known]
    refine ⟨⟨grows.settled.put _ (f.settled_keeping r l), grows.extended.trans ?_⟩, ?_⟩
    · refine extends_put fun g there l' => ?_
      cases found.symm.trans there
      rfl
    · intro text same
      cases same
      exact ⟨f.keeping r l, (find?_put _ _ _ _).trans (if_pos rfl), rfl⟩

theorem resolve_of_found {c : Catalog} {r : Resources} (settled : c.Settled r) {source : Source}
    {f : Family} (found : c.families.find? source.file = some f) (key : Text) (l : Locale) :
    (c.resolve r source key l).value.1 = .ok ((f.keeping r l).lookup key) := by
  rw [resolve_of_family (family_of_found found) (settled _ _ found)]

end Catalog

/-- The count of switches goes up by one, as long as it does not start over. -/
theorem Switchboard.toNat_version_publish {α : Type} {b : Switchboard α}
    (few : b.version.toNat + 1 < UInt64.size) (l : Locale) :
    (b.publish l).version.toNat = b.version.toNat + 1 := by
  rw [publish, UInt64.toNat_add, UInt64.toNat_one, Nat.mod_eq_of_lt few]

namespace Localizer

/-- A localizer after some use, which counts its switches and has its locale as long as there was
none. -/
structure Follows (r : Resources) (z z' : Localizer) : Prop where
  catalog : Catalog.Grows r z.catalog z'.catalog
  counted : z.version.toNat ≤ z'.version.toNat
  still : z'.version = z.version → z'.current = z.current

theorem resolve_value (z : Localizer) (r : Resources) (source : Source) (key : Text) (l : Locale) :
    (z.resolve r source key l).value =
      ((z.catalog.resolve r source key l).value.1,
        { z with catalog := (z.catalog.resolve r source key l).value.2 }) := rfl

theorem follows_of_grows {r : Resources} {z z' : Localizer}
    (grows : Catalog.Grows r z.catalog z'.catalog) (version : z'.version = z.version)
    (current : z'.current = z.current) : z.Follows r z' :=
  ⟨grows, Nat.le_of_eq (congrArg UInt64.toNat version.symm), fun _ => current⟩

theorem follows_resolve {r : Resources} {z : Localizer} (settled : z.catalog.Settled r)
    (source : Source) (key : Text) (l : Locale) :
    z.Follows r (z.resolve r source key l).value.2 :=
  follows_of_grows (Catalog.resolve_grows settled source key l).1 rfl rfl

theorem toNat_version_publish {z : Localizer} (few : z.version.toNat + 1 < UInt64.size)
    (l : Locale) :
    ({ z with switchboard := z.switchboard.publish l } : Localizer).version.toNat =
      z.version.toNat + 1 := Switchboard.toNat_version_publish few l

theorem follows_publish {r : Resources} {z : Localizer} (settled : z.catalog.Settled r)
    (few : z.version.toNat + 1 < UInt64.size) (l : Locale) :
    z.Follows r { z with switchboard := z.switchboard.publish l } := by
  have next := toNat_version_publish few l
  refine ⟨settled.grows, by omega, fun same => ?_⟩
  have equal := congrArg UInt64.toNat same
  omega

/-- What a unit keeps is no older than the last switch, or it is the text for the current locale. -/
def Backs (r : Resources) (z : Localizer) (u : TextUnit) : Prop :=
  ∀ since text, u.kept = some (since, text) →
    since.toNat ≤ z.version.toNat ∧
      (since = z.version → ∃ f, z.catalog.families.find? u.source.file = some f ∧
        text = (f.keeping r z.current).lookup u.key)

theorem Backs.follows {r : Resources} {z z' : Localizer} {u : TextUnit} (h : z.Backs r u)
    (later : z.Follows r z') : z'.Backs r u := by
  intro since text kept
  obtain ⟨older, backed⟩ := h since text kept
  refine ⟨Nat.le_trans older later.counted, fun now => ?_⟩
  -- The count cannot have moved on, or what is kept would be from the future.
  have unmoved : z'.version = z.version := by
    have counted := later.counted
    rw [now] at older
    exact UInt64.toNat_inj.mp (Nat.le_antisymm older counted)
  obtain ⟨f, found, answer⟩ := backed (now.trans unmoved)
  obtain ⟨f', found', same⟩ := later.catalog.extended _ f found
  exact ⟨f', found', by rw [later.still unmoved, same, answer]⟩

theorem kept_of_kept? {u : TextUnit} {version : UInt64} {text : Text}
    (h : u.kept? version = some text) : u.kept = some (version, text) := by
  obtain ⟨⟨since, _⟩, found, rfl⟩ := Option.map_eq_some_iff.mp h
  obtain ⟨kept, now⟩ := Option.filter_eq_some_iff.mp found
  rw [kept, of_decide_eq_true now]

theorem Backs.outdated {r : Resources} {z : Localizer} {u : TextUnit} (h : z.Backs r u)
    (now : u.kept? z.version = none) {version : UInt64} (later : z.version.toNat ≤ version.toNat) :
    u.kept? version = none := by
  cases serves : u.kept? version with
  | none => rfl
  | some text =>
      have kept := kept_of_kept? serves
      have older := (h version text kept).1
      have same : version = z.version := UInt64.toNat_inj.mp (Nat.le_antisymm older later)
      rw [← same, serves] at now
      cases now

theorem value_of_kept {u : TextUnit} {z : Localizer} {text : Text}
    (kept : u.kept? z.version = some text) (r : Resources) :
    (u.value z r).value = (.ok text, u, z) := by
  rw [TextUnit.value, kept]
  rfl

theorem value_of_not_kept {u : TextUnit} {z : Localizer} (absent : u.kept? z.version = none)
    (r : Resources) :
    (u.value z r).value =
      match (z.resolveCurrent r u.source u.key).value with
      | (.error e, z') => (.error e, u, z')
      | (.ok text, z') => (.ok text, { u with kept := some (z'.version, text) }, z') := by
  rw [TextUnit.value, absent, Traced.value_bind]
  rcases (z.resolveCurrent r u.source u.key).value with ⟨_ | text, z'⟩ <;> rfl

/-- A unit that is backed gives the text for the current locale, and is backed after that. One that
fails keeps what it kept, which was of no use. -/
structure Answers (r : Resources) (z : Localizer) (u : TextUnit)
    (answer : Except Family.Error Text × TextUnit × Localizer) : Prop where
  current : answer.1 = (z.resolveCurrent r u.source u.key).value.1
  later : z.Follows r answer.2.2
  backed : answer.2.2.Backs r answer.2.1
  failed : ∀ e, answer.1 = .error e → answer.2.1 = u ∧ u.kept? z.version = none

theorem value_answers {r : Resources} {z : Localizer} (settled : z.catalog.Settled r)
    {u : TextUnit} (backs : z.Backs r u) : Answers r z u (u.value z r).value := by
  cases kept : u.kept? z.version with
  | some text =>
      obtain ⟨-, backed⟩ := backs _ _ (kept_of_kept? kept)
      obtain ⟨f, found, rfl⟩ := backed rfl
      rw [value_of_kept kept]
      refine ⟨?_, follows_of_grows settled.grows rfl rfl, backs, fun e failed => by cases failed⟩
      exact (Catalog.resolve_of_found settled found u.key z.current).symm
  | none =>
      obtain ⟨grows, answered⟩ := Catalog.resolve_grows settled u.source u.key z.current
      have later := follows_resolve settled u.source u.key z.current
      have now : (z.catalog.resolve r u.source u.key z.current).value.1 =
        (z.resolveCurrent r u.source u.key).value.1 := rfl
      rw [value_of_not_kept kept, resolveCurrent]
      rw [resolve_value] at later ⊢
      generalize (z.catalog.resolve r u.source u.key z.current).value = answer
        at grows answered later now ⊢
      obtain ⟨e | text, c⟩ := answer
      · exact ⟨now, later, backs.follows later, fun _ _ => ⟨rfl, kept⟩⟩
      · refine ⟨now, later, ?_, fun e failed => by cases failed⟩
        intro since text' same
        cases same
        exact ⟨Nat.le_refl _, fun _ => answered text rfl⟩

end Localizer

end Phrasebook
