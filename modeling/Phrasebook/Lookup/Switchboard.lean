import Phrasebook.Locale.Identifier

/-!
A switchboard holds the current locale, counts its switches, and lists who listens to them. Who
listens is told apart by numbers that are given in order. They start over after `2 ^ 64`, as the
count of switches does.
-/

namespace Phrasebook

structure Switchboard (α : Type) where
  current : Locale
  version : UInt64
  nextNumber : UInt64
  listeners : List (UInt64 × α)
deriving DecidableEq, Repr

namespace Switchboard

variable {α : Type}

def start (l : Locale) : Switchboard α := ⟨l, 0, 0, []⟩

def publish (s : Switchboard α) (l : Locale) : Switchboard α :=
  { s with current := l, version := s.version + 1 }

def add (s : Switchboard α) (a : α) : Switchboard α :=
  { s with nextNumber := s.nextNumber + 1, listeners := s.listeners ++ [(s.nextNumber, a)] }

def drop (s : Switchboard α) (number : UInt64) : Switchboard α :=
  { s with listeners := s.listeners.filter fun (n, _) => n != number }

end Switchboard

end Phrasebook
