/-! Results that may fail: how a chain of them succeeds, how a computed one is told, and where a walk
over a list stops. -/
namespace Phrasebook.Outcome

variable {ε α β : Type}

theorem bind_eq_ok_iff {x : Except ε α} {f : α → Except ε β} {b : β} :
    x >>= f = .ok b ↔ ∃ a, x = .ok a ∧ f a = .ok b := by
  cases x with
  | error e => exact ⟨fun h => (nomatch h), fun ⟨_, h, _⟩ => (nomatch h)⟩
  | ok a => exact ⟨fun h => ⟨a, rfl, h⟩, fun ⟨_, h, hb⟩ => Except.ok.inj h ▸ hb⟩

theorem eq_ok_of_toOption {x : Except ε α} {a : α} (h : x.toOption = some a) : x = .ok a := by
  cases x with
  | error e => cases h
  | ok b => exact congrArg Except.ok (Option.some.inj h)

theorem forM_cons (f : α → Except ε PUnit) (x : α) (xs : List α) :
    (x :: xs).forM f = f x >>= fun _ => xs.forM f := rfl

/-- Going through an appended list is going through its parts, one after the other. -/
theorem forM_append (f : α → Except ε PUnit) (xs ys : List α) :
    (xs ++ ys).forM f = xs.forM f >>= fun _ => ys.forM f := by
  induction xs with
  | nil => rfl
  | cons x xs ih =>
      rw [List.cons_append, forM_cons, forM_cons, ih]
      cases f x <;> rfl

theorem forM_eq_ok_iff {f : α → Except ε PUnit} {xs : List α} :
    xs.forM f = .ok () ↔ ∀ x ∈ xs, f x = .ok () := by
  induction xs with
  | nil => simp [List.forM, pure, Except.pure]
  | cons x xs ih =>
      rw [forM_cons, bind_eq_ok_iff, ih, List.forall_mem_cons]
      constructor
      · rintro ⟨⟨⟩, here, later⟩
        exact ⟨here, later⟩
      · rintro ⟨here, later⟩
        exact ⟨(), here, later⟩

/-- Going through a list stops at the first element that fails, with its error. -/
theorem first_of_forM_eq_error {f : α → Except ε PUnit} {xs : List α} {e : ε}
    (h : xs.forM f = .error e) :
    ∃ before x after, xs = before ++ x :: after ∧ (∀ b ∈ before, f b = .ok ()) ∧
      f x = .error e := by
  induction xs with
  | nil => cases h
  | cons x xs ih =>
      rw [forM_cons] at h
      cases here : f x with
      | error e' =>
          rw [here] at h
          cases h
          exact ⟨[], x, xs, rfl, nofun, here⟩
      | ok done =>
          rw [here] at h
          obtain ⟨before, y, after, rfl, passed, failed⟩ := ih h
          exact ⟨x :: before, y, after, rfl, List.forall_mem_cons.mpr ⟨here, passed⟩, failed⟩

end Phrasebook.Outcome
