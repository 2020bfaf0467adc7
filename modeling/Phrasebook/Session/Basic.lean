import Phrasebook.Lookup.Localizer
import Phrasebook.FileTree.Change
import Phrasebook.Locale.Host

/-!
A session is a program that uses localizers: the one that it works with, the one that is shared
process-wide, and those that only units or subscriptions still know. Localizers are known by their
place in a list that only grows, which stands for their identity. What happens on the way, texts
that listeners receive and names that are asked for, is kept in a journal.
-/

namespace Phrasebook

/-- What a listener does when it is called, after it has received its text. -/
inductive Action where
  | subscribe (name : Text) (script : List (List Action))
  | unsubscribe (name : Text)
  | switch (locale : Locale)

/-- Actions for one call after the other; a listener with nothing left does nothing more. -/
abbrev Script := List (List Action)

mutual

def Action.switches : Action → Nat
  | .subscribe _ script => scriptSwitches script
  | .unsubscribe _ => 0
  | .switch _ => 1

def actionSwitches : List Action → Nat
  | [] => 0
  | a :: rest => a.switches + actionSwitches rest

def scriptSwitches : List (List Action) → Nat
  | [] => 0
  | turn :: rest => actionSwitches turn + scriptSwitches rest

end

structure Subscription where
  localizer : Nat
  number : UInt64
deriving DecidableEq, Repr

inductive Happening where
  | received (name : Text) (text : Text)
  | requested (request : Request)
deriving DecidableEq, Repr

structure BoundUnit where
  localizer : Nat
  unit : TextUnit
deriving DecidableEq, Repr

/-- Which family is meant: one in the catalog of a localizer, or one that was read apart. -/
inductive FamilyRef where
  | catalogued (localizer : Nat) (file : Text)
  | separate (number : Nat)
deriving DecidableEq, Repr

structure Session where
  resources : Resources
  overrides : OverrideSettings
  localizers : List Localizer
  current : Option Nat
  shared : Option Nat
  units : Dictionary BoundUnit
  subscriptions : Dictionary Subscription
  scripts : List (Subscription × Script)
  separate : List Family
  shown : List FamilyRef
  journal : List Happening

namespace Session

/-- A session with one localizer, which is its own and not shared. -/
def start (resources : Resources) (overrides : OverrideSettings) (initial : Locale) : Session where
  resources := resources
  overrides := overrides
  localizers := [.start initial overrides]
  current := some 0
  shared := none
  units := []
  subscriptions := []
  scripts := []
  separate := []
  shown := []
  journal := []

def note (s : Session) (h : Happening) : Session := { s with journal := s.journal ++ [h] }

def absorb {α : Type} (s : Session) (t : Traced α) : α × Session :=
  (t.value, { s with journal := s.journal ++ t.requests.map .requested })

def setLocalizer (s : Session) (i : Nat) (z : Localizer) : Session :=
  { s with localizers := s.localizers.set i z }

def addLocalizer (s : Session) (z : Localizer) : Nat × Session :=
  (s.localizers.length, { s with localizers := s.localizers ++ [z] })

def localizer? (s : Session) : Option Localizer := s.current.bind fun i => s.localizers[i]?

/-- The shared localizer, which is made from the environment when there is none. -/
def sharedLocalizer (s : Session) (env : Locale.Environment) : Nat × Session :=
  match s.shared with
  | some i => (i, s)
  | none =>
    let (i, s) := s.addLocalizer (.start (Locale.ofEnvironment env) OverrideSettings.default)
    (i, { s with shared := some i })

def release (s : Session) (sub : Subscription) : Session :=
  match s.localizers[sub.localizer]? with
  | some z => s.setLocalizer sub.localizer { z with switchboard := z.switchboard.drop sub.number }
  | none => s

def unsubscribe (s : Session) (name : Text) : Session :=
  match s.subscriptions.find? name with
  | some sub =>
    { s.release sub with subscriptions := s.subscriptions.filter fun (n, _) => n != name }
  | none => s

/-- Adds a listener under a name. A subscription that had the name ends, after the new one began. -/
def subscribe (s : Session) (i : Nat) (name : Text) (listener : Listener) (script : Script) :
    Session :=
  match s.localizers[i]? with
  | none => s
  | some z =>
    let sub : Subscription := ⟨i, z.switchboard.nextNumber⟩
    let s := s.setLocalizer i { z with switchboard := z.switchboard.add listener }
    let s := s.unsubscribe name
    { s with
      subscriptions := s.subscriptions.insert name sub
      scripts := (sub, script) :: s.scripts }

def nextTurn (s : Session) (sub : Subscription) : List Action × Session :=
  match s.scripts.lookup sub with
  | some (turn :: rest) =>
    (turn, { s with scripts := (sub, rest) :: s.scripts.filter fun (other, _) => other != sub })
  | _ => ([], s)

def pendingSwitches (s : Session) : Nat :=
  s.scripts.foldr (fun (_, script) n => scriptSwitches script + n) 0

/-- The number by which a family is shown: the first shown is 0, and so on. -/
def showFamily (s : Session) (f : FamilyRef) : Nat × Session :=
  match s.shown.idxOf? f with
  | some i => (i, s)
  | none => (s.shown.length, { s with shown := s.shown ++ [f] })

end Session

end Phrasebook
