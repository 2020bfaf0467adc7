import Phrasebook.Session.Basic

/-!
Switching a locale calls everyone who listens at that moment, and does so before it returns. What
listeners do in turn, switches among them, is done at once. Those who are dropped on the way are
still called, and those who are added are not. Since every nested switch uses up an action, their
number is bounded from the start.
-/

namespace Phrasebook.Session

/-- Hands the new locale, or the text for it, to a listener; a text that cannot be found is left
out. -/
def deliver (s : Session) (i : Nat) (l : Locale) : Listener → Session
  | .locale name => s.note (.received name l.name)
  | .text name source key =>
    match s.localizers[i]? with
    | none => s
    | some z =>
      let ((result, z), s) := s.absorb (z.resolve s.resources source key l)
      let s := s.setLocalizer i z
      match result with
      | .ok text => s.note (.received name text)
      | .error _ => s

def publish (s : Session) (i : Nat) (l : Locale) : Session :=
  match s.localizers[i]? with
  | some z => s.setLocalizer i { z with switchboard := z.switchboard.publish l }
  | none => s

def listenersOf (s : Session) (i : Nat) : List (UInt64 × Listener) :=
  (s.localizers[i]?.map fun z => z.switchboard.listeners).getD []

def act (switch : Session → Locale → Session) (i : Nat) (s : Session) : List Action → Session
  | [] => s
  | .subscribe name script :: rest => act switch i (s.subscribe i name (.locale name) script) rest
  | .unsubscribe name :: rest => act switch i (s.unsubscribe name) rest
  | .switch l :: rest => act switch i (switch s l) rest

def callAll (switch : Session → Locale → Session) (i : Nat) (l : Locale) (s : Session) :
    List (UInt64 × Listener) → Session
  | [] => s
  | (number, listener) :: rest =>
    let (turn, s) := (s.deliver i l listener).nextTurn ⟨i, number⟩
    callAll switch i l (act switch i s turn) rest

def switchWithin : (nested : Nat) → (i : Nat) → Session → Locale → Session
  | 0, i, s, l => s.publish i l
  | nested + 1, i, s, l =>
    let s := s.publish i l
    callAll (switchWithin nested i) i l s (s.listenersOf i)

def switch (s : Session) (i : Nat) (l : Locale) : Session :=
  switchWithin (s.pendingSwitches + 1) i s l

end Phrasebook.Session
