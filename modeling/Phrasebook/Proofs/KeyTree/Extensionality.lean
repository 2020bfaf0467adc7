import Phrasebook.Proofs.KeyTree.Growth

/-! Trees that insertion makes are told apart by what they hold. So the paths alone determine a
tree, and the order in which they went in does not show. -/
namespace Phrasebook.KeyTree

theorem holds_singleton_iff {t : KeyTree} {k : Text} {e : Entry} :
    Holds t [k] e ↔ t.entries.find? k = some e := by
  rw [holds_cons_iff]
  constructor
  · rintro (⟨-, found⟩ | ⟨g, -, inside⟩)
    · exact found
    · exact (not_holds_nil inside).elim
  · intro found
    exact .inl ⟨rfl, found⟩

theorem holds_in_group {t g : KeyTree} {k : Text} {segments : List Text} {e : Entry}
    (found : t.groups.find? k = some g) (nonempty : segments ≠ []) :
    Holds t (k :: segments) e ↔ Holds g segments e := by
  rw [holds_cons_iff]
  constructor
  · rintro (⟨none, -⟩ | ⟨g', found', inside⟩)
    · exact (nonempty none).elim
    · cases found.symm.trans found'
      exact inside
  · intro inside
    exact .inr ⟨g, found, inside⟩

/-- A group is there for the entries in it, so another tree with these entries has it too. -/
theorem Valid.exists_group {above : List Text} {t t' g : KeyTree} {k : Text} (valid : Valid above t)
    (kept : ∀ q e, Holds t q e → Holds t' q e) (found : t.groups.find? k = some g) :
    ∃ g', t'.groups.find? k = some g' := by
  obtain ⟨segments, e, inside⟩ :=
    (valid.inner found).exists_holds (valid.here.group found).2.2
  have held : Holds t' (k :: segments) e := kept _ _ (.within found inside)
  rcases holds_cons_iff.mp held with ⟨rfl, -⟩ | ⟨g', found', -⟩
  · exact (not_holds_nil inside).elim
  · exact ⟨g', found'⟩

theorem Valid.ext {above : List Text} {t t' : KeyTree} (valid : Valid above t)
    (valid' : Valid above t') (named : t.name = t'.name)
    (same : ∀ q e, Holds t q e ↔ Holds t' q e) : t = t' := by
  induction valid generalizing t' with
  | @intro above t kept inner ih =>
      have here : Valid above t := .intro kept inner
      have entries : t.entries = t'.entries := by
        refine kept.entries.ext valid'.here.entries fun k => Option.ext fun e => ?_
        rw [← holds_singleton_iff, ← holds_singleton_iff, same]
      have shared : ∀ k g g', t.groups.find? k = some g → t'.groups.find? k = some g' →
          g = g' := by
        intro k g g' found found'
        refine ih k g found (valid'.inner found') ?_ fun q e => ?_
        · rw [(kept.group found).2.1, (valid'.here.group found').2.1]
        · by_cases empty : q = []
          · rw [empty]
            exact iff_of_false not_holds_nil not_holds_nil
          · rw [← holds_in_group found empty, ← holds_in_group found' empty, same]
      have groups : t.groups = t'.groups := by
        refine kept.groups.ext valid'.here.groups fun k => ?_
        cases found : t.groups.find? k with
        | none =>
            cases found' : t'.groups.find? k with
            | none => rfl
            | some g' =>
                obtain ⟨g, there⟩ := valid'.exists_group (fun q e => (same q e).mpr) found'
                cases found.symm.trans there
        | some g =>
            obtain ⟨g', found'⟩ := here.exists_group (fun q e => (same q e).mp) found
            rw [found', shared k g g' found found']
      obtain ⟨name, es, gs⟩ := t
      obtain ⟨name', es', gs'⟩ := t'
      cases named
      cases entries
      cases groups
      rfl

theorem name_insert {t : KeyTree} {path : Text} (accepted : (t.insert path).2 = .ok ()) :
    (t.insert path).1.name = t.name := by
  rw [insert_eq] at accepted ⊢
  exact name_insertBelow accepted

theorem name_insertAll {t grown : KeyTree} {paths : List Text}
    (h : t.insertAll paths = .ok grown) : grown.name = t.name := by
  induction paths generalizing t with
  | nil =>
      cases h
      rfl
  | cons path rest ih =>
      rw [insertAll_cons] at h
      split at h
      · rename_i accepted
        exact (ih h).trans (name_insert accepted)
      · cases h

theorem Apart.perm {paths paths' : List Text} (h : Apart paths) (same : paths.Perm paths') :
    Apart paths' := by
  refine (same.pairwise_iff ?_).mp h
  intro p q clear
  exact clear.symm

/-- The tree of a list of paths is the tree of every reordering of it. -/
theorem ofPaths_perm {paths paths' : List Text} (same : paths.Perm paths') {t : KeyTree}
    (h : ofPaths paths = .ok t) : ofPaths paths' = .ok t := by
  have apart : Apart paths' := ((ofPaths_ok_iff paths).mp ⟨t, h⟩).perm same
  obtain ⟨t', h'⟩ := (ofPaths_ok_iff paths').mpr apart
  have grown := grown_of_ofPaths h
  have grown' := grown_of_ofPaths h'
  have equal : t = t' := by
    refine grown.valid.ext grown'.valid ?_ fun q e => ?_
    · exact (name_insertAll h).trans (name_insertAll h').symm
    · rw [grown.holds, grown'.holds]
      simp only [same.mem_iff]
  rw [h', equal]

theorem ofPaths_error_perm {paths paths' : List Text} (same : paths.Perm paths') {c : PathConflict}
    (h : ofPaths paths = .error c) : ∃ c', ofPaths paths' = .error c' := by
  cases h' : ofPaths paths' with
  | error c' => exact ⟨c', rfl⟩
  | ok t => cases h.symm.trans (ofPaths_perm same.symm h')

/-- Being apart, told by the places of the paths in the list. -/
theorem apart_iff_getElem {paths : List Text} :
    Apart paths ↔ ∀ i j (hi : i < paths.length) (hj : j < paths.length), i ≠ j →
      ¬ segmentsOf paths[i] <+: segmentsOf paths[j] := by
  rw [Apart, List.pairwise_iff_getElem]
  constructor
  · intro apart i j hi hj other
    rcases Nat.lt_or_gt_of_ne other with less | greater
    · exact (apart i j hi hj less).1
    · exact (apart j i hj hi greater).2
  · intro apart i j hi hj less
    exact ⟨apart i j hi hj (Nat.ne_of_lt less), apart j i hj hi (Nat.ne_of_gt less)⟩

/-- Paths go in one after the other exactly when none of them, at any two places of the list, is
another one or leads to it. Every reordering of such a list goes in as well and makes the same
tree. -/
theorem insertion_order_does_not_show (paths : List Text) :
    ((∃ t, ofPaths paths = .ok t) ↔
      ∀ i j (hi : i < paths.length) (hj : j < paths.length), i ≠ j →
        ¬ segmentsOf paths[i] <+: segmentsOf paths[j]) ∧
    ∀ paths' t, paths.Perm paths' → ofPaths paths = .ok t → ofPaths paths' = .ok t := by
  refine ⟨(ofPaths_ok_iff paths).trans apart_iff_getElem, fun paths' t same built => ?_⟩
  exact ofPaths_perm same built

/-- An empty segment counts as any other: with it a path is another one, and it may lead on. -/
theorem insertion_order_does_not_show_empty :
    (∃ t, ["..b".toList, "a".toList, ".a".toList].Perm [".a".toList, "..b".toList, "a".toList] ∧
      ofPaths ["..b".toList, "a".toList, ".a".toList] = .ok t ∧
      ofPaths [".a".toList, "..b".toList, "a".toList] = .ok t) ∧
    ¬ ∃ t, ofPaths ["..b".toList, "a".toList, ".".toList] = .ok t := by
  constructor
  · obtain ⟨t, built⟩ : ∃ t, ofPaths ["..b".toList, "a".toList, ".a".toList] = .ok t := ⟨_, rfl⟩
    have same : ["..b".toList, "a".toList, ".a".toList].Perm
        [".a".toList, "..b".toList, "a".toList] := by decide
    exact ⟨t, same, built, (insertion_order_does_not_show _).2 _ t same built⟩
  · intro built
    have apart := (insertion_order_does_not_show _).1.mp built
    exact apart 2 0 (by decide) (by decide) (by decide) (by decide)

end Phrasebook.KeyTree
