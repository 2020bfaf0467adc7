import Phrasebook.Text.Basic

/-!
Sorting by insertion. The result has the elements of the list, and is in order wherever the
comparison is a total order.
-/

namespace Phrasebook.Sorting

variable {α : Type}

def place (le : α → α → Bool) (a : α) : List α → List α
  | [] => [a]
  | b :: rest => if le a b then a :: b :: rest else b :: place le a rest

def sort (le : α → α → Bool) (xs : List α) : List α := xs.foldr (place le) []

theorem place_perm (le : α → α → Bool) (a : α) (xs : List α) :
    (place le a xs).Perm (a :: xs) := by
  induction xs with
  | nil => exact .refl _
  | cons b rest ih =>
    rw [place]
    split
    · exact .refl _
    · exact (ih.cons b).trans (.swap a b rest)

theorem sort_perm (le : α → α → Bool) (xs : List α) : (sort le xs).Perm xs := by
  induction xs with
  | nil => exact .refl _
  | cons a rest ih => exact (place_perm le a _).trans (ih.cons a)

theorem pairwise_place {le : α → α → Bool} (total : ∀ a b, le a b = true ∨ le b a = true)
    (trans : ∀ a b c, le a b = true → le b c = true → le a c = true) (a : α) {xs : List α}
    (h : xs.Pairwise fun x y => le x y = true) :
    (place le a xs).Pairwise fun x y => le x y = true := by
  induction xs with
  | nil => exact List.pairwise_singleton _ a
  | cons b rest ih =>
    obtain ⟨hb, hrest⟩ := List.pairwise_cons.1 h
    rw [place]
    split
    · rename_i hab
      refine List.pairwise_cons.2 ⟨fun c hc => ?_, h⟩
      rcases List.mem_cons.1 hc with rfl | hc
      · exact hab
      · exact trans a b c hab (hb c hc)
    · rename_i hab
      refine List.pairwise_cons.2 ⟨fun c hc => ?_, ih hrest⟩
      rcases List.mem_cons.1 ((place_perm le a rest).mem_iff.1 hc) with rfl | hc
      · exact (total c b).resolve_left hab
      · exact hb c hc

theorem pairwise_sort {le : α → α → Bool} (total : ∀ a b, le a b = true ∨ le b a = true)
    (trans : ∀ a b c, le a b = true → le b c = true → le a c = true) (xs : List α) :
    (sort le xs).Pairwise fun x y => le x y = true := by
  induction xs with
  | nil => exact List.Pairwise.nil
  | cons a rest ih => exact pairwise_place total trans a ih

theorem sort_eq_of_perm {le : α → α → Bool} (total : ∀ a b, le a b = true ∨ le b a = true)
    (trans : ∀ a b c, le a b = true → le b c = true → le a c = true)
    (antisymm : ∀ a b, le a b = true → le b a = true → a = b) {xs ys : List α}
    (h : xs.Perm ys) : sort le xs = sort le ys := by
  refine List.Perm.eq_of_pairwise (fun a b _ _ => antisymm a b)
    (pairwise_sort total trans xs) (pairwise_sort total trans ys) ?_
  exact (sort_perm le xs).trans (h.trans (sort_perm le ys).symm)

theorem place_map {β : Type} {le : β → β → Bool} {le' : α → α → Bool} {f : α → β} {a : α}
    {xs : List α} (same : ∀ b ∈ xs, le (f a) (f b) = le' a b) :
    place le (f a) (xs.map f) = (place le' a xs).map f := by
  induction xs with
  | nil => rfl
  | cons b rest ih =>
    obtain ⟨here, later⟩ := List.forall_mem_cons.1 same
    rw [List.map_cons, place, place, here, ih later]
    cases le' a b <;> rfl

/-- Sorting commutes with a map under which the comparison stays the same. -/
theorem sort_map {β : Type} {le : β → β → Bool} {le' : α → α → Bool} {f : α → β} {xs : List α}
    (same : ∀ a ∈ xs, ∀ b ∈ xs, le (f a) (f b) = le' a b) :
    sort le (xs.map f) = (sort le' xs).map f := by
  induction xs with
  | nil => rfl
  | cons a rest ih =>
    have later := ih fun a ha b hb =>
      same a (List.mem_cons_of_mem _ ha) b (List.mem_cons_of_mem _ hb)
    have here : ∀ b ∈ sort le' rest, le (f a) (f b) = le' a b := fun b hb =>
      same a List.mem_cons_self b (List.mem_cons_of_mem _ ((sort_perm le' rest).mem_iff.1 hb))
    exact (congrArg (place le (f a)) later).trans (place_map here)

end Phrasebook.Sorting

namespace Phrasebook.Text

def le (a b : Text) : Bool := !decide (b < a)

def sorted (texts : List Text) : List Text := Sorting.sort le texts

end Phrasebook.Text
