import Phrasebook.Proofs.Lookup.Settlement
import Phrasebook.Proofs.Session.Steps

/-! Sessions that are only asked for something. Localizers may read more families then, and others
may be added that are new. Nothing else happens: units, subscriptions and documents are the same,
and nobody hears of it. -/
namespace Phrasebook

/-- A localizer before and after it was asked. -/
structure Localizer.Asked (r : Resources) (z z' : Localizer) : Prop where
  switchboard : z'.switchboard = z.switchboard
  catalog : z.catalog.Settled r → Catalog.Grows r z.catalog z'.catalog

namespace Localizer.Asked

variable {r : Resources} {z z' z'' : Localizer}

theorem refl (r : Resources) (z : Localizer) : z.Asked r z := ⟨rfl, fun settled => settled.grows⟩

theorem trans (h : z.Asked r z') (h' : z'.Asked r z'') : z.Asked r z'' := by
  refine ⟨h'.switchboard.trans h.switchboard, fun settled => ?_⟩
  have first := h.catalog settled
  have second := h'.catalog first.settled
  exact ⟨second.settled, first.extended.trans second.extended⟩

theorem follows (h : z.Asked r z') (settled : z.catalog.Settled r) : z.Follows r z' :=
  follows_of_grows (h.catalog settled) (congrArg Switchboard.version h.switchboard)
    (congrArg Switchboard.current h.switchboard)

theorem resolve (z : Localizer) (r : Resources) (source : Source) (key : Text) (l : Locale) :
    z.Asked r (z.resolve r source key l).value.2 :=
  ⟨rfl, fun settled => (Catalog.resolve_grows settled source key l).1⟩

theorem family (z : Localizer) (r : Resources) (source : Source) :
    z.Asked r (z.family r source).value.2 :=
  ⟨rfl, fun settled => (Catalog.family_grows settled source).1⟩

theorem value (u : TextUnit) (z : Localizer) (r : Resources) :
    z.Asked r (u.value z r).value.2.2 := by
  cases kept : u.kept? z.version with
  | some text =>
      rw [value_of_kept kept]
      exact refl r z
  | none =>
      have asked := resolve z r u.source u.key z.current
      rw [value_of_not_kept kept, resolveCurrent]
      generalize (z.resolve r u.source u.key z.current).value = answer at asked ⊢
      obtain ⟨e | text, z'⟩ := answer
      · exact asked
      · exact asked

/-- A family of the catalog may go back there as it is after a look-up. -/
theorem put {file : Text} {f : Family} (registered : z.catalog.families.find? file = some f)
    (key : Text) (l : Locale) :
    z.Asked r { z with catalog := z.catalog.put file (f.resolve r key l).value.2 } := by
  refine ⟨rfl, fun settled => ?_⟩
  rw [Family.resolve_of_settled (settled file f registered)]
  refine settled.grows_put (f.settled_keeping r l) fun g there l' => ?_
  cases registered.symm.trans there
  rfl

end Localizer.Asked

namespace Session

/-- A session before and after it was asked. -/
structure Asked (s s' : Session) : Prop where
  resources : s'.resources = s.resources
  kept : ∀ (i : Nat) (z : Localizer), s.localizers[i]? = some z →
    ∃ z', s'.localizers[i]? = some z' ∧ z.Asked s.resources z'
  added : ∀ (i : Nat) (z' : Localizer), s.localizers[i]? = none → s'.localizers[i]? = some z' →
    (∃ l, z'.switchboard = .start l) ∧ z'.catalog.Settled s.resources
  units : s'.units = s.units
  shared : s'.shared = s.shared
  subscriptions : s'.subscriptions = s.subscriptions
  scripts : s'.scripts = s.scripts
  journal : ∀ name, deliveries name s'.journal = deliveries name s.journal

namespace Asked

variable {s s' s'' : Session}

/-- What a session works with and has shown, and its separate families, do not count. -/
theorem congr (resources : s'.resources = s.resources) (localizers : s'.localizers = s.localizers)
    (units : s'.units = s.units) (shared : s'.shared = s.shared)
    (subscriptions : s'.subscriptions = s.subscriptions) (scripts : s'.scripts = s.scripts)
    (journal : s'.journal = s.journal) : s.Asked s' := by
  refine ⟨resources, fun i z hz => ⟨z, localizers ▸ hz, .refl _ z⟩, fun i z absent hz => ?_, units,
    shared, subscriptions, scripts, fun name => by rw [journal]⟩
  rw [localizers, absent] at hz
  cases hz

theorem refl (s : Session) : s.Asked s := congr rfl rfl rfl rfl rfl rfl rfl

theorem trans (h : s.Asked s') (h' : s'.Asked s'') : s.Asked s'' := by
  refine ⟨h'.resources.trans h.resources, fun i z hz => ?_, fun i z absent hz => ?_,
    h'.units.trans h.units, h'.shared.trans h.shared, h'.subscriptions.trans h.subscriptions,
    h'.scripts.trans h.scripts, fun name => (h'.journal name).trans (h.journal name)⟩
  · obtain ⟨z', hz', first⟩ := h.kept i z hz
    obtain ⟨z'', hz'', second⟩ := h'.kept i z' hz'
    exact ⟨z'', hz'', first.trans (h.resources ▸ second)⟩
  · cases hz' : s'.localizers[i]? with
    | none => exact h.resources ▸ h'.added i z hz' hz
    | some z' =>
        obtain ⟨⟨l, new⟩, settled⟩ := h.added i z' absent hz'
        obtain ⟨z'', hz'', asked⟩ := h'.kept i z' hz'
        cases hz.symm.trans hz''
        rw [h.resources] at asked
        exact ⟨⟨l, asked.switchboard.trans new⟩, (asked.catalog settled).settled⟩

theorem absorb (s : Session) {α : Type} (t : Traced α) : s.Asked (s.absorb t).2 :=
  { refl s with journal := fun name => deliveries_requested name s.journal t.requests }

theorem setLocalizer {i : Nat} {z z' : Localizer} (hz : s.localizers[i]? = some z)
    (asked : z.Asked s.resources z') : s.Asked (s.setLocalizer i z') := by
  refine ⟨rfl, fun j y hy => ?_, fun j y absent hy => ?_, rfl, rfl, rfl, rfl, fun _ => rfl⟩
  · rw [getElem?_setLocalizer hz]
    split
    · rename_i same
      cases hz.symm.trans (same ▸ hy)
      exact ⟨z', rfl, asked⟩
    · exact ⟨y, hy, .refl _ y⟩
  · rw [getElem?_setLocalizer hz] at hy
    split at hy
    · rename_i same
      cases hz.symm.trans (same ▸ absent)
    · cases absent.symm.trans hy

theorem addLocalizer (s : Session) (l : Locale) (overrides : OverrideSettings) :
    s.Asked (s.addLocalizer (.start l overrides)).2 := by
  refine ⟨rfl, fun i z hz => ⟨z, getElem?_addLocalizer hz _, .refl _ z⟩, fun i z absent hz => ?_,
    rfl, rfl, rfl, rfl, fun _ => rfl⟩
  rcases mem_addLocalizer hz with old | rfl
  · cases absent.symm.trans old
  · exact ⟨⟨l, rfl⟩, nofun⟩

theorem settle {i : Nat} {α : Type} {z : Localizer} {t : Traced (α × Localizer)}
    (hz : s.localizers[i]? = some z) (asked : z.Asked s.resources t.value.2) :
    s.Asked (s.settle i t).2 :=
  (absorb s t).trans (setLocalizer hz asked)

theorem resolved {i : Nat} {z : Localizer} (hz : s.localizers[i]? = some z) (source : Source)
    (key : Text) (l : Locale) : s.Asked (s.settle i (z.resolve s.resources source key l)).2 :=
  settle hz (.resolve z s.resources source key l)

theorem showFamily (s : Session) (ref : FamilyRef) : s.Asked (s.showFamily ref).2 := by
  rw [Session.showFamily]
  split
  · exact refl s
  · exact congr rfl rfl rfl rfl rfl rfl rfl

theorem family (s : Session) (source : Source) : s.Asked (s.family source).2 := by
  refine withLocalizer_cases (P := s.Asked) (refl s) fun i z _ hz => ?_
  have asked : s.Asked (s.settle i (z.family s.resources source)).2 :=
    settle hz (.family z s.resources source)
  generalize s.settle i (z.family s.resources source) = t at asked ⊢
  obtain ⟨e | f, s'⟩ := t
  · exact asked
  · exact asked.trans (showFamily s' _)

theorem readFamily (s : Session) (loader : Loader) (file : Text) :
    s.Asked (s.readFamily loader file).2 := by
  have absorbed := absorb s (Family.read loader s.resources file)
  rw [Session.readFamily]
  generalize s.absorb (Family.read loader s.resources file) = t at absorbed ⊢
  obtain ⟨e | f, s'⟩ := t
  · exact absorbed
  · have shown := absorbed.trans (showFamily s' (.separate s'.separate.length))
    exact shown.trans (congr rfl rfl rfl rfl rfl rfl rfl)

theorem load (s : Session) (loader : Loader) (name : Text) : s.Asked (s.load loader name).2 := by
  have absorbed := absorb s (loader.load s.resources name)
  rw [Session.load]
  generalize s.absorb (loader.load s.resources name) = t at absorbed ⊢
  obtain ⟨e | entries, s'⟩ := t
  · exact absorbed
  · exact absorbed

theorem resolveIn (s : Session) (number : Nat) (key : Text) (l : Locale) :
    s.Asked (s.resolveIn number key l).2 := by
  rw [Session.resolveIn]
  split
  · exact refl s
  · rename_i ref f known
    obtain ⟨ref', -, found⟩ := Option.bind_eq_some_iff.mp known
    obtain ⟨f', there, same⟩ := Option.map_eq_some_iff.mp found
    cases same
    have absorbed := absorb s (f.resolve s.resources key l)
    cases ref with
    | separate k => exact absorbed.trans (congr rfl rfl rfl rfl rfl rfl rfl)
    | catalogued i file =>
        obtain ⟨z, hz, registered⟩ := Option.bind_eq_some_iff.mp there
        have back := absorbed.trans (setLocalizer hz (.put registered key l))
        simp only [putFamily, Session.absorb, hz]
        exact back

theorem workWith (s : Session) (l : Locale) (overrides : OverrideSettings) :
    s.Asked (s.workWith (.start l overrides)) :=
  (addLocalizer s l overrides).trans (congr rfl rfl rfl rfl rfl rfl rfl)

end Asked

end Session

end Phrasebook
