import Phrasebook.Text.Basic

/-!
Every name that is asked for in an embedded set is recorded, so that what a lookup costs is part of
its result. Requests of later steps come after those of earlier ones.
-/

namespace Phrasebook

/-- A name that was asked for in an embedded set, which is known by its number. -/
structure Request where
  set : Nat
  name : Text
deriving DecidableEq, Repr

/-- A result together with the requests that it took, in order. -/
structure Traced (α : Type) where
  value : α
  requests : List Request

namespace Traced

variable {α β : Type}

instance : Monad Traced where
  pure a := ⟨a, []⟩
  bind t f := ⟨(f t.value).value, t.requests ++ (f t.value).requests⟩

@[simp] theorem value_pure (a : α) : (pure a : Traced α).value = a := rfl

@[simp] theorem requests_pure (a : α) : (pure a : Traced α).requests = [] := rfl

@[simp] theorem value_bind (t : Traced α) (f : α → Traced β) :
    (t >>= f).value = (f t.value).value := rfl

@[simp] theorem requests_bind (t : Traced α) (f : α → Traced β) :
    (t >>= f).requests = t.requests ++ (f t.value).requests := rfl

end Traced

end Phrasebook
