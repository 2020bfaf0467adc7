import Phrasebook.Proofs.Locale.Name
import Phrasebook.Proofs.Lookup.LayerCache
import Phrasebook.Proofs.Lookup.Tier

/-! What a look-up finds, said by the documents that exist and not by the layers that are kept. It
takes the first tier that has the key, from the whole locale over its bare language to the document
itself. -/
namespace Phrasebook.Family

/-- The siblings that are searched for a locale: that of its whole name, and that of its bare
language where it has one that is not the whole name. -/
def siblingNames (file : Text) (l : Locale) : List Text :=
  if l.isInvariant then []
  else
    Resource.siblingName file l.name ::
      if l.language ≠ Locale.undetermined ∧ l.language ≠ l.name then
        [Resource.siblingName file l.language]
      else []

/-- The names whose tiers are searched for a locale, in order; the document itself is the last. -/
def tierNames (file : Text) (l : Locale) : List Text := siblingNames file l ++ [file]

theorem read_value (loader : Loader) (r : Resources) (file : Text) :
    (read loader r file).value = match (loader.load r file).value with
      | .ok (some entries) => .ok ⟨file, loader, entries, none⟩
      | .ok none => .error (.missing file)
      | .error cause => .error (.invalid file cause) := by
  rw [read, Traced.value_bind]
  cases (loader.load r file).value with
  | error cause => rfl
  | ok found => cases found <;> rfl

theorem read_missing_iff (loader : Loader) (r : Resources) (file : Text) :
    (read loader r file).value = .error (.missing file) ↔
      loader.embedded r file = none ∧ loader.readDisk r file = none := by
  have loaded := Loader.loaded_load loader r file
  rw [read_value]
  generalize (loader.load r file).value = given at loaded ⊢
  constructor
  · intro failed
    split at failed <;> cases failed
    cases loaded with
    | missing noEmbedded noDisk => exact ⟨noEmbedded, noDisk⟩
  · rintro ⟨noEmbedded, noDisk⟩
    cases loaded with
    | missing _ _ => rfl
    | invalid bad cause =>
        obtain ⟨copy, there, -⟩ := bad
        simp [noEmbedded, noDisk] at there
    | found good flat texts ht hflat =>
        rw [Loader.tier_of_missing noEmbedded noDisk] at ht
        cases ht

theorem read_invalid_iff (loader : Loader) (r : Resources) (file : Text) :
    (∃ cause, (read loader r file).value = .error (.invalid file cause)) ↔
      loader.HasBadCopy r file := by
  have loaded := Loader.loaded_load loader r file
  rw [read_value]
  generalize (loader.load r file).value = given at loaded ⊢
  constructor
  · rintro ⟨cause, failed⟩
    split at failed <;> cases failed
    cases loaded with
    | invalid bad _ => exact bad
  · intro bad
    cases loaded with
    | missing noEmbedded noDisk =>
        obtain ⟨copy, there, -⟩ := bad
        simp [noEmbedded, noDisk] at there
    | invalid _ cause => exact ⟨cause, rfl⟩
    | found good flat texts ht hflat => exact (good bad).elim

theorem read_ok_iff (loader : Loader) (r : Resources) (file : Text) :
    (∃ f, (read loader r file).value = .ok f) ↔
      (loader.embedded r file ≠ none ∨ loader.readDisk r file ≠ none) ∧
        ¬ loader.HasBadCopy r file := by
  have missing := read_missing_iff loader r file
  have invalid := read_invalid_iff loader r file
  constructor
  · rintro ⟨f, made⟩
    rw [made] at missing invalid
    refine ⟨?_, fun bad => ?_⟩
    · refine Classical.byContradiction fun neither => ?_
      rw [not_or, not_not, not_not] at neither
      cases missing.mpr neither
    · obtain ⟨cause, failed⟩ := invalid.mpr bad
      cases failed
  · rintro ⟨there, good⟩
    rw [read_value] at missing invalid ⊢
    split
    · exact ⟨_, rfl⟩
    · rename_i h
      rw [h] at missing
      obtain ⟨noEmbedded, noDisk⟩ := missing.mp rfl
      exact (there.elim (· noEmbedded) (· noDisk)).elim
    · rename_i cause h
      rw [h] at invalid
      exact (good (invalid.mp ⟨cause, rfl⟩)).elim

theorem read_embeddedOnly {n : Nat} {r : Resources} {file text : Text}
    (hcopy : (r.set n).read file = some text) (good : ¬ Document.Bad text) :
    ∃ f, (read (.embeddedOnly n) r file).value = .ok f := by
  refine (read_ok_iff _ r file).mpr ⟨.inl fun absent => ?_, ?_⟩
  · cases absent.symm.trans hcopy
  · rintro ⟨copy, there | onDisk, bad⟩
    · cases there.symm.trans hcopy
      exact good bad
    · cases onDisk

/-- As long as its set stays the same, a family without overrides answers alike after every run. -/
theorem resolve_embeddedOnly {n : Nat} {r : Resources} {file : Text} {f : Family}
    (made : (read (.embeddedOnly n) r file).value = .ok f) {calls : List Call}
    (same : ∀ c ∈ calls, c.resources.set n = r.set n) (key : Text) (l : Locale) :
    ((f.after calls).resolve r key l).value = ((f.keeping r l).lookup key, f.keeping r l) := by
  obtain ⟨-, shape⟩ := fresh_of_read made
  have fresh : f.layers = none := by rw [shape]
  have loader : f.loader = .embeddedOnly n := by rw [shape]
  refine resolve_of_unchanged fresh (fun c hc => ?_) key
  have unmoved : f.loader.load c.resources = f.loader.load r := by
    rw [loader, Loader.load_embeddedOnly (same c hc)]
  exact congrArg Traced.value (readLayers_congr unmoved l)

theorem readSibling_value (f : Family) (r : Resources) (l : Locale) :
    (f.readSibling r l).value = f.loader.loadedMap r (Resource.siblingName f.file l.name) := by
  rw [readSibling, Traced.value_bind, Loader.loadedMap]
  cases (f.loader.load r (Resource.siblingName f.file l.name)).value <;> rfl

theorem findSome?_toList {α β : Type} (g : α → Option β) (o : Option α) :
    o.toList.findSome? g = o.bind g := by
  cases o with
  | none => rfl
  | some a => simp

theorem findSome?_readLayers (f : Family) (r : Resources) (l : Locale) (key : Text) :
    (f.readLayers r l).value.tiers.findSome? (·.find? key) =
      (siblingNames f.file l).findSome? fun name => (f.loader.tier r name).bind (· key) := by
  have sibling : ∀ l : Locale, ((f.readSibling r l).value.bind fun entries => entries.find? key) =
      (f.loader.tier r (Resource.siblingName f.file l.name)).bind (· key) := by
    intro l
    rw [readSibling_value, Loader.find?_loadedMap]
  unfold readLayers siblingNames
  by_cases inv : l.isInvariant = true
  · rw [if_pos inv, if_pos inv]
    rfl
  · rw [if_neg inv, if_neg inv, Traced.value_bind, Locale.languageOnly_eq]
    by_cases bare : l.language ≠ Locale.undetermined ∧ l.language ≠ l.name
    · rw [if_pos bare, if_pos bare]
      simp only [Traced.value_bind, Traced.value_pure, Layers.tiers, List.findSome?_append,
        findSome?_toList, sibling, Locale.name_bare]
      cases hs : (f.loader.tier r (Resource.siblingName f.file l.name)).bind (· key) <;>
        cases hb : (f.loader.tier r (Resource.siblingName f.file l.language)).bind (· key) <;>
          simp [List.findSome?, hs, hb]
    · rw [if_neg bare, if_neg bare]
      simp only [Traced.value_pure, Layers.tiers, List.findSome?_append, findSome?_toList, sibling]
      cases hs : (f.loader.tier r (Resource.siblingName f.file l.name)).bind (· key) <;>
        simp [List.findSome?, hs]

/-- With the layers as they can be read, the maps of a family are the tiers. -/
theorem findSome?_tiers {loader : Loader} {r : Resources} {file : Text} {f : Family}
    (made : (read loader r file).value = .ok f) (l : Locale) (key : Text) :
    (f.keeping r l).tiers.findSome? (·.find? key) =
      (tierNames file l).findSome? fun name => (loader.tier r name).bind (· key) := by
  obtain ⟨loaded, shape⟩ := fresh_of_read made
  have hfile : f.file = file := by rw [shape]
  have hloader : f.loader = loader := by rw [shape]
  have own : f.invariant.find? key = (loader.tier r file).bind (· key) := by
    rw [← Loader.find?_loadedMap, Loader.loadedMap, loaded]
    rfl
  have siblings := findSome?_readLayers f r l key
  rw [hfile, hloader] at siblings
  change ((f.readLayers r l).value.tiers ++ [f.invariant]).findSome? (·.find? key) = _
  rw [tierNames, List.findSome?_append, List.findSome?_append, siblings,
    List.findSome?_singleton, List.findSome?_singleton, own]

end Phrasebook.Family
