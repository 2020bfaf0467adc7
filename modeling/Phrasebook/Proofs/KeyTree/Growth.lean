import Phrasebook.Proofs.KeyTree.Insertion

/-! Trees that grow by whole paths. A list of paths goes in exactly when its paths are apart, and
then the tree holds these paths and no others. -/
namespace Phrasebook.KeyTree

theorem insert_eq (t : KeyTree) (path : Text) :
    t.insert path = insertBelow (entryOf path) [] (splitPath path).1 t := rfl

theorem entryOf_append (path : Text) :
    (splitPath path).1 ++ [(entryOf path).localName] = segmentsOf path := splitPath_append path

theorem insert_ok_iff {t : KeyTree} (valid : Valid [] t) (path : Text) :
    (t.insert path).2 = .ok () ↔ ∀ q e, Holds t q e → Clear (segmentsOf path) q := by
  rw [insert_eq, insertBelow_ok_iff valid, entryOf_append]

theorem holds_insert {t : KeyTree} {path : Text} (accepted : (t.insert path).2 = .ok ())
    {q : List Text} {e : Entry} :
    Holds (t.insert path).1 q e ↔ (q = segmentsOf path ∧ e = entryOf path) ∨ Holds t q e := by
  rw [insert_eq] at accepted ⊢
  rw [holds_insertBelow accepted, entryOf_append]

theorem Valid.insert {t : KeyTree} {path : Text} (valid : Valid [] t)
    (accepted : (t.insert path).2 = .ok ()) : Valid [] (t.insert path).1 := by
  rw [insert_eq] at accepted ⊢
  refine Valid.insertBelow valid ?_ ?_ accepted
  · rw [entryOf_append]
    exact fun s hs => Cut.not_mem_segment hs
  · rw [entryOf_append, List.nil_append, dotted_segmentsOf, entryOf]

theorem paths_insert {t : KeyTree} {path : Text} (valid : Valid [] t)
    (accepted : (t.insert path).2 = .ok ()) : (t.insert path).1.paths.Perm (path :: t.paths) := by
  rw [insert_eq] at accepted ⊢
  exact (allEntries_insertBelow valid accepted).map (·.fullPath)

theorem insertAll_cons (t : KeyTree) (path : Text) (rest : List Text) :
    t.insertAll (path :: rest) =
      match (t.insert path).2 with
      | .ok () => (t.insert path).1.insertAll rest
      | .error conflict => .error conflict := by
  rw [insertAll]
  split <;> rename_i h <;> rw [h]

/-- What a run of insertions leads to, when none of them is refused. -/
structure Grown (t : KeyTree) (added : List Text) (grown : KeyTree) : Prop where
  valid : Valid [] grown
  paths : grown.paths.Perm (added ++ t.paths)
  holds : ∀ q e, Holds grown q e ↔
    (∃ path ∈ added, q = segmentsOf path ∧ e = entryOf path) ∨ Holds t q e

theorem Grown.cons {t grown : KeyTree} {path : Text} {rest : List Text} (valid : Valid [] t)
    (accepted : (t.insert path).2 = .ok ()) (h : Grown (t.insert path).1 rest grown) :
    Grown t (path :: rest) grown := by
  refine ⟨h.valid, ?_, fun q e => ?_⟩
  · have hfirst := (paths_insert valid accepted).append_left rest
    exact (h.paths.trans hfirst).trans List.perm_middle
  · rw [h.holds, holds_insert accepted]
    simp only [List.mem_cons, exists_eq_or_imp]
    rw [or_left_comm, or_assoc]

theorem insertAll_grown {t grown : KeyTree} {paths : List Text} (valid : Valid [] t)
    (h : t.insertAll paths = .ok grown) : Grown t paths grown := by
  induction paths generalizing t with
  | nil =>
      cases h
      exact ⟨valid, .refl _, fun q e => by simp⟩
  | cons path rest ih =>
      rw [insertAll_cons] at h
      split at h
      · rename_i accepted
        exact .cons valid accepted (ih (valid.insert accepted) h)
      · cases h

/-- A run of insertions is not refused exactly when its paths are apart from each other and clear of
what is there. -/
theorem insertAll_ok_iff {t : KeyTree} (valid : Valid [] t) (paths : List Text) :
    (∃ grown, t.insertAll paths = .ok grown) ↔
      Apart paths ∧ ∀ path ∈ paths, ∀ q e, Holds t q e → Clear (segmentsOf path) q := by
  induction paths generalizing t with
  | nil => exact ⟨fun _ => ⟨.nil, by simp⟩, fun _ => ⟨t, rfl⟩⟩
  | cons path rest ih =>
      rw [insertAll_cons, Apart, List.pairwise_cons]
      constructor
      · intro h
        split at h
        · rename_i accepted
          obtain ⟨apart, clear⟩ := (ih (valid.insert accepted)).mp h
          refine ⟨⟨fun p hp => ?_, apart⟩, fun p hp q e held => ?_⟩
          · have new := (holds_insert accepted).mpr (.inl ⟨rfl, rfl⟩)
            exact (clear p hp _ _ new).symm
          · rcases List.mem_cons.mp hp with rfl | later
            · exact (insert_ok_iff valid p).mp accepted q e held
            · exact clear p later q e ((holds_insert accepted).mpr (.inr held))
        · obtain ⟨grown, h⟩ := h
          cases h
      · rintro ⟨⟨first, apart⟩, clear⟩
        have accepted := (insert_ok_iff valid path).mpr (clear path List.mem_cons_self)
        rw [accepted]
        refine (ih (valid.insert accepted)).mpr ⟨apart, fun p hp q e held => ?_⟩
        rcases (holds_insert accepted).mp held with ⟨rfl, rfl⟩ | old
        · exact (first p hp).symm
        · exact clear p (List.mem_cons_of_mem _ hp) q e old

theorem ofPaths_ok_iff (paths : List Text) : (∃ t, ofPaths paths = .ok t) ↔ Apart paths := by
  refine (insertAll_ok_iff (valid_empty [] []) paths).trans (and_iff_left fun path _ q e held => ?_)
  exact (not_holds_empty held).elim

theorem grown_of_ofPaths {t : KeyTree} {paths : List Text} (h : ofPaths paths = .ok t) :
    Grown root paths t := insertAll_grown (valid_empty [] []) h

theorem paths_of_ofPaths {t : KeyTree} {paths : List Text} (h : ofPaths paths = .ok t) :
    t.paths.Perm paths := by
  simpa [KeyTree.paths, root, empty, allEntries, allEntriesOf] using (grown_of_ofPaths h).paths

theorem find?_of_ofPaths {t : KeyTree} {paths : List Text} (h : ofPaths paths = .ok t) {path : Text}
    {e : Entry} : t.find? path = some e ↔ path ∈ paths ∧ e = entryOf path := by
  rw [find?_eq_some_iff, (grown_of_ofPaths h).holds]
  constructor
  · rintro (⟨p, hp, same, rfl⟩ | held)
    · cases segmentsOf_injective same
      exact ⟨hp, rfl⟩
    · exact (not_holds_empty held).elim
  · rintro ⟨hp, rfl⟩
    exact .inl ⟨path, hp, rfl, rfl⟩

theorem Apart.nodup {paths : List Text} (h : Apart paths) : paths.Nodup := by
  refine List.Pairwise.imp ?_ h
  rintro p q clear rfl
  exact clear.1 (List.prefix_refl _)

end Phrasebook.KeyTree
