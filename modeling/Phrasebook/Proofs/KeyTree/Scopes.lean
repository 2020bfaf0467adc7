import Phrasebook.Proofs.KeyTree.Requests

/-! The groups of a tree one after the other, each with the names that lead to it. The walk comes to
every group, to a group before the groups in it, and to those in key order. -/
namespace Phrasebook.KeyTree

mutual

/-- The groups of a tree with the names that lead to them, a group before the groups in it. -/
def scopes (above : List Text) : KeyTree → List (List Text × KeyTree)
  | group n es gs => (above, group n es gs) :: scopesOf above gs

def scopesOf (above : List Text) : List (Text × KeyTree) → List (List Text × KeyTree)
  | [] => []
  | (k, g) :: rest => scopes (above ++ [k]) g ++ scopesOf above rest

end

mutual

/-- These are the visits of a walk, which knows the depth of a group and its key. -/
theorem visits_eq : ∀ (t : KeyTree) (above : List Text),
    visits above.length (above.getLastD []) t =
      (scopes above t).map fun s => ⟨s.1.length, s.1.getLastD [], s.2⟩
  | group n es gs, above => by
      rw [visits, scopes, List.map_cons, visitsOf_eq gs above]

theorem visitsOf_eq : ∀ (gs : List (Text × KeyTree)) (above : List Text),
    visitsOf (above.length + 1) gs =
      (scopesOf above gs).map fun s => ⟨s.1.length, s.1.getLastD [], s.2⟩
  | [], _ => by rw [visitsOf, scopesOf, List.map_nil]
  | (k, g) :: rest, above => by
      have inside := visits_eq g (above ++ [k])
      rw [List.length_append, List.length_singleton, List.getLastD_concat] at inside
      rw [visitsOf, scopesOf, List.map_append, inside, visitsOf_eq rest above]

end

theorem mem_scopesOf {above : List Text} {gs : List (Text × KeyTree)} {s : List Text × KeyTree} :
    s ∈ scopesOf above gs ↔ ∃ k g, (k, g) ∈ gs ∧ s ∈ scopes (above ++ [k]) g := by
  induction gs with
  | nil => simp [scopesOf]
  | cons e rest ih =>
      obtain ⟨k, g⟩ := e
      rw [scopesOf, List.mem_append, ih]
      constructor
      · rintro (first | ⟨k', g', there, inside⟩)
        · exact ⟨k, g, List.mem_cons_self, first⟩
        · exact ⟨k', g', List.mem_cons_of_mem _ there, inside⟩
      · rintro ⟨k', g', there, inside⟩
        rcases List.mem_cons.mp there with same | later
        · cases same
          exact .inl inside
        · exact .inr ⟨k', g', later, inside⟩

theorem mem_scopes {above : List Text} {t : KeyTree} {s : List Text × KeyTree} :
    s ∈ scopes above t ↔
      s = (above, t) ∨ ∃ k g, (k, g) ∈ t.groups ∧ s ∈ scopes (above ++ [k]) g := by
  obtain ⟨n, es, gs⟩ := t
  rw [scopes, List.mem_cons, mem_scopesOf]
  exact Iff.rfl

/-- The walk leaves no group out and makes none up. -/
theorem everywhere_iff_scopes {P : List Text → KeyTree → Prop} {above : List Text} {t : KeyTree}
    (sorted : Sorted above t) : Everywhere P above t ↔ ∀ s ∈ scopes above t, P s.1 s.2 := by
  induction sorted with
  | @intro above t listed inner ih =>
      constructor
      · intro all s there
        rcases mem_scopes.mp there with rfl | ⟨k, g, entry, inside⟩
        · exact all.here
        · have found := Dictionary.find?_of_mem listed.groups.nodup entry
          exact (ih k g found).mp (all.inner found) s inside
      · intro all
        refine .intro (all (above, t) (mem_scopes.mpr (.inl rfl))) fun k g found => ?_
        refine (ih k g found).mpr fun s inside => all s (mem_scopes.mpr (.inr ?_))
        exact ⟨k, g, Dictionary.mem_of_find? found, inside⟩

end Phrasebook.KeyTree
