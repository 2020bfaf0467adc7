import Mathlib.Data.List.Nodup
import Phrasebook.Text.Dictionary

/-! Dictionaries as finite maps. An ordered dictionary is determined by its lookups, insertion keeps
the order, and laying one dictionary over another is a choice key by key. -/
namespace Phrasebook.Dictionary

variable {α : Type}

theorem contains_iff {key : Text} {d : Dictionary α} :
    contains key d = true ↔ ∃ v, find? key d = some v := Option.isSome_iff_exists

theorem contains_eq_false_iff {key : Text} {d : Dictionary α} :
    contains key d = false ↔ find? key d = none :=
  Option.isSome_eq_false_iff.trans Option.isNone_iff_eq_none

theorem mem_of_find? {key : Text} {v : α} {d : Dictionary α} (h : find? key d = some v) :
    (key, v) ∈ d := by
  induction d with
  | nil => cases h
  | cons e rest ih =>
      obtain ⟨k, w⟩ := e
      rw [find?] at h
      split at h
      · rename_i same
        cases h
        exact same ▸ List.mem_cons_self
      · exact List.mem_cons_of_mem _ (ih h)

theorem find?_eq_none_iff {key : Text} {d : Dictionary α} : find? key d = none ↔ key ∉ d.keys := by
  induction d with
  | nil => simp [find?, keys]
  | cons e rest ih =>
      obtain ⟨k, w⟩ := e
      by_cases same : key = k
      · simp [find?, keys, same]
      · simpa [find?, keys, same] using ih

theorem mem_keys_iff {key : Text} {d : Dictionary α} :
    key ∈ d.keys ↔ ∃ v, find? key d = some v := by
  rw [← Option.isSome_iff_exists, Option.isSome_iff_ne_none, ne_eq, find?_eq_none_iff, not_not]

theorem find?_of_mem {key : Text} {v : α} {d : Dictionary α} (distinct : d.keys.Nodup)
    (h : (key, v) ∈ d) : find? key d = some v := by
  induction d with
  | nil => cases h
  | cons e rest ih =>
      obtain ⟨k, w⟩ := e
      obtain ⟨fresh, distinctRest⟩ := List.nodup_cons.mp distinct
      rcases List.mem_cons.mp h with first | later
      · cases first
        exact if_pos rfl
      · have other : key ≠ k := by
          intro same
          exact fresh (List.mem_map.mpr ⟨(key, v), later, same⟩)
        rw [find?, if_neg other]
        exact ih distinctRest later

theorem find?_eq_some_iff {key : Text} {v : α} {d : Dictionary α} (distinct : d.keys.Nodup) :
    find? key d = some v ↔ (key, v) ∈ d :=
  ⟨mem_of_find?, find?_of_mem distinct⟩

theorem find?_insert (key other : Text) (value : α) (d : Dictionary α) :
    find? other (insert key value d) = if other = key then some value else find? other d := by
  by_cases same : other = key
  · rw [if_pos same, same, find?_insert_self]
  · rw [if_neg same, find?_insert_of_ne same]

theorem eq_or_find?_of_insert {key other : Text} {value v : α} {d : Dictionary α}
    (found : find? other (insert key value d) = some v) :
    (other = key ∧ v = value) ∨ find? other d = some v := by
  rw [find?_insert] at found
  split at found
  · rename_i same
    exact .inl ⟨same, (Option.some.inj found).symm⟩
  · exact .inr found

theorem find?_filter_ne (key other : Text) (d : Dictionary α) :
    find? other (d.filter fun (k, _) => k != key) =
      if other = key then none else find? other d := by
  induction d with
  | nil => simp [find?]
  | cons e rest ih =>
      obtain ⟨k, v⟩ := e
      rw [List.filter_cons]
      by_cases gone : k = key
      · rw [if_neg (by simp [gone]), ih]
        by_cases same : other = key
        · rw [if_pos same, if_pos same]
        · rw [if_neg same, if_neg same, find?, if_neg (gone ▸ same)]
      · rw [if_pos (by simpa using gone), find?, find?, ih]
        by_cases found : other = k
        · rw [if_pos found, if_pos found, if_neg (found ▸ gone)]
        · rw [if_neg found, if_neg found]

theorem mem_insert {key k : Text} {value v : α} {d : Dictionary α}
    (h : (k, v) ∈ insert key value d) : (k, v) = (key, value) ∨ (k, v) ∈ d := by
  induction d with
  | nil => exact .inl (List.mem_singleton.mp h)
  | cons e rest ih =>
      rw [insert] at h
      split at h
      · rcases List.mem_cons.mp h with first | later
        · exact .inr (first ▸ List.mem_cons_self)
        · exact (ih later).imp_right (List.mem_cons_of_mem _)
      · split at h
        · exact (List.mem_cons.mp h).imp_right (List.mem_cons_of_mem _)
        · exact List.mem_cons.mp h

theorem ordered_nil : Ordered ([] : Dictionary α) := List.Pairwise.nil

theorem ordered_cons {k : Text} {v : α} {rest : Dictionary α} :
    Ordered ((k, v) :: rest) ↔ (∀ l ∈ rest.keys, k < l) ∧ Ordered rest := List.pairwise_cons

theorem Ordered.nodup {d : Dictionary α} (h : Ordered d) : d.keys.Nodup := by
  refine List.Pairwise.imp ?_ h
  rintro a b less rfl
  exact List.lt_irrefl a less

theorem keys_insert {key k : Text} {value : α} {d : Dictionary α}
    (h : k ∈ (insert key value d).keys) : k = key ∨ k ∈ d.keys := by
  obtain ⟨⟨k, v⟩, hmem, rfl⟩ := List.mem_map.mp h
  rcases mem_insert hmem with first | later
  · exact .inl (congrArg Prod.fst first)
  · exact .inr (List.mem_map.mpr ⟨_, later, rfl⟩)

theorem Ordered.insert {d : Dictionary α} (h : Ordered d) (key : Text) (value : α) :
    Ordered (d.insert key value) := by
  induction d with
  | nil => exact ordered_cons.mpr ⟨fun _ hl => (List.not_mem_nil hl).elim, ordered_nil⟩
  | cons e rest ih =>
      obtain ⟨k, v⟩ := e
      obtain ⟨below, ordered⟩ := ordered_cons.mp h
      rw [Dictionary.insert]
      split
      · rename_i less
        refine ordered_cons.mpr ⟨fun l hl => ?_, ih ordered⟩
        rcases keys_insert hl with rfl | later
        · exact less
        · exact below l later
      · rename_i notLess
        split
        · rename_i same
          exact ordered_cons.mpr ⟨same ▸ below, ordered⟩
        · rename_i other
          have less : key < k :=
            (Std.lt_trichotomy key k).resolve_right fun h => h.elim other notLess
          refine ordered_cons.mpr ⟨fun l hl => ?_, h⟩
          rcases List.mem_cons.mp hl with rfl | later
          · exact less
          · exact List.lt_trans less (below l later)

theorem Ordered.ext {d d' : Dictionary α} (h : Ordered d) (h' : Ordered d')
    (same : ∀ key, find? key d = find? key d') : d = d' := by
  have hperm : d.Perm d' := by
    have hd : d.Nodup := List.Nodup.of_map _ h.nodup
    have hd' : d'.Nodup := List.Nodup.of_map _ h'.nodup
    refine (List.perm_ext_iff_of_nodup hd hd').mpr fun e => ?_
    rw [← find?_eq_some_iff h.nodup, ← find?_eq_some_iff h'.nodup, same]
  have sorted : d.Pairwise (fun a b => a.1 < b.1) := List.pairwise_map.mp h
  have sorted' : d'.Pairwise (fun a b => a.1 < b.1) := List.pairwise_map.mp h'
  refine hperm.eq_of_pairwise ?_ sorted sorted'
  intro a b _ _ less greater
  exact (List.lt_asymm less greater).elim

theorem insert_perm {key : Text} {d : Dictionary α} (value : α) (absent : find? key d = none) :
    (insert key value d).Perm ((key, value) :: d) := by
  induction d with
  | nil => exact .refl _
  | cons e rest ih =>
      obtain ⟨k, v⟩ := e
      rw [find?] at absent
      split at absent
      · cases absent
      · rename_i other
        rw [insert]
        split
        · exact ((ih absent).cons _).trans (.swap _ _ _)
        · exact .refl _

theorem insert_replace {key : Text} {old : α} {d : Dictionary α} (value : α) (h : Ordered d)
    (present : find? key d = some old) :
    ∃ pre post, d = pre ++ (key, old) :: post ∧
      insert key value d = pre ++ (key, value) :: post := by
  induction d with
  | nil => cases present
  | cons e rest ih =>
      obtain ⟨k, v⟩ := e
      obtain ⟨below, ordered⟩ := ordered_cons.mp h
      by_cases same : key = k
      · subst same
        rw [find?, if_pos rfl] at present
        cases present
        exact ⟨[], rest, rfl, by rw [insert, if_neg (List.lt_irrefl _), if_pos rfl]; rfl⟩
      · rw [find?, if_neg same] at present
        have less : k < key := below key (mem_keys_iff.mpr ⟨old, present⟩)
        obtain ⟨pre, post, cut, cutInsert⟩ := ih ordered present
        refine ⟨(k, v) :: pre, post, ?_, ?_⟩
        · rw [cut, List.cons_append]
        · rw [insert, if_pos less, cutInsert, List.cons_append]

theorem overlay_cons (lower : Dictionary α) (key : Text) (value : α) (rest : Dictionary α) :
    overlay lower ((key, value) :: rest) = overlay (lower.insert key value) rest := rfl

theorem Ordered.overlay {lower : Dictionary α} (h : Ordered lower) (upper : Dictionary α) :
    Ordered (lower.overlay upper) := by
  induction upper generalizing lower with
  | nil => exact h
  | cons e rest ih => exact ih (h.insert e.1 e.2)

/-- The upper text of a key counts, and the lower one where there is no upper one. -/
theorem find?_overlay {upper : Dictionary α} (distinct : upper.keys.Nodup) (lower : Dictionary α)
    (key : Text) : find? key (overlay lower upper) = (find? key upper).or (find? key lower) := by
  induction upper generalizing lower with
  | nil => rfl
  | cons e rest ih =>
      obtain ⟨k, v⟩ := e
      obtain ⟨fresh, distinctRest⟩ := List.nodup_cons.mp distinct
      rw [overlay_cons, ih distinctRest, find?_insert, find?]
      split
      · rename_i same
        rw [same, find?_eq_none_iff.mpr fresh, Option.none_or, Option.some_or]
      · rfl

theorem ordered_ofList (pairs : List (Text × α)) : Ordered (ofList pairs) :=
  ordered_nil.overlay pairs

theorem mem_keys_overlay {upper lower : Dictionary α} {k : Text}
    (h : k ∈ (lower.overlay upper).keys) : k ∈ lower.keys ∨ k ∈ upper.keys := by
  induction upper generalizing lower with
  | nil => exact .inl h
  | cons e rest ih =>
      obtain ⟨key, v⟩ := e
      rcases ih h with inserted | later
      · rcases keys_insert inserted with rfl | old
        · exact .inr List.mem_cons_self
        · exact .inl old
      · exact .inr (List.mem_cons_of_mem _ later)

theorem mem_keys_ofList {pairs : List (Text × α)} {k : Text} (h : k ∈ (ofList pairs).keys) :
    k ∈ pairs.map (·.1) := by
  have held : k ∈ (Dictionary.overlay [] pairs).keys := h
  exact (mem_keys_overlay held).resolve_left List.not_mem_nil

theorem Ordered.overlay_nil {d : Dictionary α} (h : Ordered d) : Dictionary.overlay [] d = d := by
  refine (ordered_nil.overlay d).ext h fun key => ?_
  rw [find?_overlay h.nodup, find?, Option.or_none]

theorem overlay_perm {upper lower : Dictionary α} (distinct : upper.keys.Nodup)
    (apart : ∀ key ∈ upper.keys, key ∉ lower.keys) :
    (overlay lower upper).Perm (upper ++ lower) := by
  induction upper generalizing lower with
  | nil => exact .refl _
  | cons e rest ih =>
      obtain ⟨k, v⟩ := e
      obtain ⟨fresh, distinctRest⟩ := List.nodup_cons.mp distinct
      have absent : find? k lower = none := find?_eq_none_iff.mpr (apart k List.mem_cons_self)
      have apartRest : ∀ key ∈ keys rest, key ∉ keys (lower.insert k v) := by
        intro key hkey hin
        rcases keys_insert hin with rfl | there
        · exact fresh hkey
        · exact apart key (List.mem_cons_of_mem _ hkey) there
      rw [overlay_cons]
      have hrest := ih distinctRest apartRest
      have hnew : (rest ++ lower.insert k v).Perm (rest ++ (k, v) :: lower) :=
        (insert_perm v absent).append_left rest
      exact (hrest.trans hnew).trans List.perm_middle

theorem ofList_perm {pairs : List (Text × α)} (distinct : (pairs.map (·.1)).Nodup) :
    (ofList pairs).Perm pairs := by
  have h : (ofList pairs).Perm (pairs ++ []) := overlay_perm distinct (fun _ _ => List.not_mem_nil)
  rwa [List.append_nil] at h

end Phrasebook.Dictionary
