import Phrasebook.Proofs.DocumentViews
import Phrasebook.Resources.Loader

/-! The tier of a name, said by the copies of a document and not by how they are laid over each
other. A copy on disk stands before the embedded one, key by key, and a bad copy spoils the tier. -/
namespace Phrasebook

open KeyTree

namespace Document

/-- A copy of a document that does not parse, or whose paths are in conflict. -/
def Bad (text : Text) : Prop :=
  ∀ table, Toml.read text = some table → ¬ Apart ((declared table).map (·.path))

/-- The map of a copy that is not bad. -/
def entries? (text : Text) : Option FlatMap := (flatMapOf text).toOption

theorem flatMapOf_eq (text : Text) :
    flatMapOf text = match Toml.read text with
      | some table => (⟨table⟩ : Document).flatten
      | none => .error .notToml := by
  rw [flatMapOf, read]
  cases Toml.read text <;> rfl

theorem bad_iff {text : Text} : Bad text ↔ ∃ e, flatMapOf text = .error e := by
  rw [flatMapOf_eq, Bad]
  cases h : Toml.read text with
  | none => exact ⟨fun _ => ⟨_, rfl⟩, fun _ table htable => (nomatch htable)⟩
  | some table =>
      have ok := flatten_isOk_iff ⟨table⟩
      constructor
      · intro bad
        cases hflat : (⟨table⟩ : Document).flatten with
        | error e => exact ⟨e, hflat⟩
        | ok flat => exact (bad table rfl (ok.mp ⟨flat, hflat⟩)).elim
      · rintro ⟨e, failed⟩ table' same apart
        cases same
        obtain ⟨flat, hflat⟩ := ok.mpr apart
        cases failed.symm.trans hflat

theorem entries?_eq_none_iff {text : Text} : entries? text = none ↔ Bad text := by
  rw [bad_iff, entries?]
  cases flatMapOf text with
  | error e => exact ⟨fun _ => ⟨e, rfl⟩, fun _ => rfl⟩
  | ok flat => exact ⟨fun h => (nomatch h), fun ⟨_, h⟩ => (nomatch h)⟩

instance (text : Text) : Decidable (Bad text) := decidable_of_iff _ entries?_eq_none_iff

theorem entries?_eq_some_iff {text : Text} {flat : FlatMap} :
    entries? text = some flat ↔ flatMapOf text = .ok flat := by
  rw [entries?]
  cases flatMapOf text with
  | error e => exact ⟨fun h => (nomatch h), fun h => (nomatch h)⟩
  | ok flat' =>
      constructor
      · intro h
        exact congrArg _ (Option.some.inj h)
      · intro h
        exact congrArg _ (Except.ok.inj h)

theorem find?_of_entries? {text : Text} {flat : FlatMap} {table : Toml.Table}
    (h : entries? text = some flat) (parsed : Toml.read text = some table) {key answer : Text} :
    flat.find? key = some answer ↔ ⟨key, answer⟩ ∈ declared table := by
  rw [entries?_eq_some_iff, flatMapOf_eq, parsed] at h
  obtain ⟨t, htree⟩ := (flatten_eq_ok_iff.mp h).1
  exact (sameLeaves_of_ok h htree).find?_eq_some_iff

theorem ordered_of_entries? {text : Text} {flat : FlatMap} (h : entries? text = some flat) :
    flat.Ordered := by
  rw [entries?_eq_some_iff, flatMapOf_eq] at h
  split at h
  · rw [(flatten_eq_ok_iff.mp h).2]
    exact Dictionary.ordered_ofList _
  · cases h

/-- A document that is not bad declares the text of a key. -/
def Declares (copy key answer : Text) : Prop :=
  ¬ Bad copy ∧ ∃ table, Toml.read copy = some table ∧ ⟨key, answer⟩ ∈ declared table

theorem declares_iff {copy key answer : Text} :
    Declares copy key answer ↔ ((entries? copy).bind fun flat => flat.find? key) = some answer := by
  constructor
  · rintro ⟨good, table, parsed, there⟩
    cases h : entries? copy with
    | none => exact (good (entries?_eq_none_iff.mp h)).elim
    | some flat => exact (find?_of_entries? h parsed).mpr there
  · intro h
    obtain ⟨flat, hflat, found⟩ := Option.bind_eq_some_iff.mp h
    have good : ¬ Bad copy := fun bad => by cases hflat.symm.trans (entries?_eq_none_iff.mpr bad)
    cases parsed : Toml.read copy with
    | none => exact (good fun table htable => by cases parsed.symm.trans htable).elim
    | some table => exact ⟨good, table, parsed, (find?_of_entries? hflat parsed).mp found⟩

instance (copy key answer : Text) : Decidable (Declares copy key answer) :=
  decidable_of_iff _ declares_iff.symm

end Document

namespace Loader

/-- The embedded copy of a document. -/
def embedded (l : Loader) (r : Resources) (name : Text) : Option Text := (r.set l.set).read name

/-- The tier of a name, as a map from keys to texts. It is absent where there is no copy, or where
one that there is is bad; else the texts on disk stand before the embedded ones, key by key. -/
def tier (l : Loader) (r : Resources) (name : Text) : Option (Text → Option Text) :=
  match l.embedded r name, l.readDisk r name with
  | none, none => none
  | some copy, none => (Document.entries? copy).map fun flat key => flat.find? key
  | none, some copy => (Document.entries? copy).map fun flat key => flat.find? key
  | some lowerCopy, some upperCopy =>
    (Document.entries? lowerCopy).bind fun lower =>
      (Document.entries? upperCopy).map fun upper key => (upper.find? key).or (lower.find? key)

def HasBadCopy (l : Loader) (r : Resources) (name : Text) : Prop :=
  ∃ copy, (l.embedded r name = some copy ∨ l.readDisk r name = some copy) ∧ Document.Bad copy

/-- What the loader gives for a name, by cases on the copies. -/
inductive Loaded (l : Loader) (r : Resources) (name : Text) :
    Except Document.Error (Option FlatMap) → Prop
  | missing (noEmbedded : l.embedded r name = none) (noDisk : l.readDisk r name = none) :
      Loaded l r name (.ok none)
  | invalid (bad : l.HasBadCopy r name) (cause : Document.Error) : Loaded l r name (.error cause)
  | found (good : ¬ l.HasBadCopy r name) (flat : FlatMap) (texts : Text → Option Text)
      (ht : l.tier r name = some texts) (hflat : ∀ key, flat.find? key = texts key) :
      Loaded l r name (.ok (some flat))

theorem merge_of_good {lower : Option FlatMap} {copy : Text} {rest : List Text} {flat : FlatMap}
    (good : Document.entries? copy = some flat) :
    merge lower (copy :: rest) = merge (some (Dictionary.overlay (lower.getD []) flat)) rest := by
  rw [merge, Document.entries?_eq_some_iff.mp good]

theorem merge_first {copy : Text} {rest : List Text} {flat : FlatMap}
    (good : Document.entries? copy = some flat) :
    merge none (copy :: rest) = merge (some flat) rest := by
  rw [merge_of_good good, Option.getD_none, (Document.ordered_of_entries? good).overlay_nil]

theorem merge_of_bad {lower : Option FlatMap} {copies : List Text} {copy : Text}
    (there : copy ∈ copies) (bad : Document.Bad copy) : ∃ e, merge lower copies = .error e := by
  induction copies generalizing lower with
  | nil => cases there
  | cons first rest ih =>
      cases h : Document.entries? first with
      | none =>
          obtain ⟨e, failed⟩ := Document.bad_iff.mp (Document.entries?_eq_none_iff.mp h)
          exact ⟨e, by rw [merge, failed]⟩
      | some flat =>
          rw [merge_of_good h]
          rcases List.mem_cons.mp there with rfl | later
          · cases (Document.entries?_eq_none_iff.mpr bad).symm.trans h
          · exact ih later

theorem good_of_not_hasBadCopy {l : Loader} {r : Resources} {name copy : Text}
    (good : ¬ l.HasBadCopy r name)
    (there : l.embedded r name = some copy ∨ l.readDisk r name = some copy) :
    ∃ flat, Document.entries? copy = some flat := by
  refine Option.ne_none_iff_exists'.mp fun absent => good ⟨copy, there, ?_⟩
  exact Document.entries?_eq_none_iff.mp absent

theorem loaded_load (l : Loader) (r : Resources) (name : Text) :
    Loaded l r name (l.load r name).value := by
  change Loaded l r name (merge none ((l.embedded r name).toList ++ (l.readDisk r name).toList))
  by_cases hasBad : l.HasBadCopy r name
  · obtain ⟨copy, there, bad⟩ := hasBad
    have listed : copy ∈ (l.embedded r name).toList ++ (l.readDisk r name).toList :=
      List.mem_append.mpr (there.imp Option.mem_toList.mpr Option.mem_toList.mpr)
    obtain ⟨e, failed⟩ := merge_of_bad listed bad
    exact failed ▸ .invalid ⟨copy, there, bad⟩ e
  · cases he : l.embedded r name with
    | none =>
        cases hd : l.readDisk r name with
        | none => exact .missing he hd
        | some upper =>
            obtain ⟨flat, hflat⟩ := good_of_not_hasBadCopy hasBad (.inr hd)
            change Loaded l r name (merge none [upper])
            rw [merge_first hflat]
            refine .found hasBad flat (fun key => flat.find? key) ?_ fun _ => rfl
            simp only [tier, he, hd, hflat, Option.map_some]
    | some lower =>
        obtain ⟨flat, hflat⟩ := good_of_not_hasBadCopy hasBad (.inl he)
        cases hd : l.readDisk r name with
        | none =>
            change Loaded l r name (merge none [lower])
            rw [merge_first hflat]
            refine .found hasBad flat (fun key => flat.find? key) ?_ fun _ => rfl
            simp only [tier, he, hd, hflat, Option.map_some]
        | some upper =>
            obtain ⟨above, habove⟩ := good_of_not_hasBadCopy hasBad (.inr hd)
            change Loaded l r name (merge none [lower, upper])
            rw [merge_first hflat, merge_of_good habove]
            refine .found hasBad _ (fun key => (above.find? key).or (flat.find? key)) ?_ ?_
            · simp only [tier, he, hd, hflat, habove, Option.bind_some, Option.map_some]
            · intro key
              exact Dictionary.find?_overlay (Document.ordered_of_entries? habove).nodup flat key

theorem tier_of_missing {l : Loader} {r : Resources} {name : Text}
    (noEmbedded : l.embedded r name = none) (noDisk : l.readDisk r name = none) :
    l.tier r name = none := by rw [tier, noEmbedded, noDisk]

theorem tier_of_bad {l : Loader} {r : Resources} {name : Text} (bad : l.HasBadCopy r name) :
    l.tier r name = none := by
  obtain ⟨copy, there, bad⟩ := bad
  have gone := Document.entries?_eq_none_iff.mpr bad
  rcases there with he | hd
  · cases hd : l.readDisk r name <;>
      simp only [tier, he, hd, gone, Option.map_none, Option.bind_none]
  · cases he : l.embedded r name with
    | none => simp only [tier, he, hd, gone, Option.map_none]
    | some lower =>
        simp only [tier, he, hd, gone, Option.map_none]
        cases Document.entries? lower <;> rfl

/-- The map that the loader gives for a name, if it gives one. -/
def loadedMap (l : Loader) (r : Resources) (name : Text) : Option FlatMap :=
  (l.load r name).value.toOption.join

theorem find?_loadedMap (l : Loader) (r : Resources) (name key : Text) :
    (l.loadedMap r name).bind (·.find? key) = (l.tier r name).bind (· key) := by
  have loaded := loaded_load l r name
  rw [loadedMap]
  cases h : (l.load r name).value with
  | error e =>
      rw [h] at loaded
      cases loaded with
      | invalid bad _ => rw [tier_of_bad bad]; rfl
  | ok result =>
      rw [h] at loaded
      cases loaded with
      | missing noEmbedded noDisk => rw [tier_of_missing noEmbedded noDisk]; rfl
      | found good flat texts ht hflat => rw [ht]; exact hflat key

theorem tier_embeddedOnly (n : Nat) (r : Resources) (name key : Text) :
    ((embeddedOnly n).tier r name).bind (· key) =
      ((r.set n).read name).bind fun copy => (Document.entries? copy).bind (·.find? key) := by
  have noDisk : (embeddedOnly n).readDisk r name = none := rfl
  change _ = ((embeddedOnly n).embedded r name).bind _
  rw [tier, noDisk]
  cases (embeddedOnly n).embedded r name with
  | none => rfl
  | some copy =>
      rw [Option.bind_some]
      cases h : Document.entries? copy with
      | none => simp only [h, Option.map_none, Option.bind_none]
      | some flat => simp only [h, Option.map_some, Option.bind_some]

theorem load_embeddedOnly {n : Nat} {r r' : Resources} (same : r.set n = r'.set n) :
    (embeddedOnly n).load r = (embeddedOnly n).load r' := by
  have copies : (embeddedOnly n).copies r = (embeddedOnly n).copies r' := by
    funext name
    change Traced.mk (((r.set n).read name).toList ++ []) _ =
      Traced.mk (((r'.set n).read name).toList ++ []) _
    rw [same]
  unfold load
  rw [copies]

/-- What the tier of a name has is declared by the copy that the set answers the name with. -/
theorem tier_eq_some_iff {n : Nat} {r : Resources} {name key answer : Text} :
    ((embeddedOnly n).tier r name).bind (· key) = some answer ↔
      ∃ copy, (r.set n).read name = some copy ∧ Document.Declares copy key answer := by
  simp only [tier_embeddedOnly, Document.declares_iff]
  exact Option.bind_eq_some_iff

theorem declared_of_tier {n : Nat} {r : Resources} {name key answer : Text}
    (h : ((embeddedOnly n).tier r name).bind (· key) = some answer) :
    ∃ copy table, (r.set n).read name = some copy ∧ ¬ Document.Bad copy ∧
      Toml.read copy = some table ∧ ⟨key, answer⟩ ∈ Document.declared table := by
  obtain ⟨copy, hcopy, good, table, parsed, there⟩ := tier_eq_some_iff.mp h
  exact ⟨copy, table, hcopy, good, parsed, there⟩

theorem tier_of_declared {n : Nat} {r : Resources} {name copy : Text} {table : Toml.Table}
    (hcopy : (r.set n).read name = some copy) (good : ¬ Document.Bad copy)
    (parsed : Toml.read copy = some table) {leaf : Leaf} (there : leaf ∈ Document.declared table) :
    ((embeddedOnly n).tier r name).bind (· leaf.path) = some leaf.text :=
  tier_eq_some_iff.mpr ⟨copy, hcopy, good, table, parsed, there⟩

end Loader

end Phrasebook
