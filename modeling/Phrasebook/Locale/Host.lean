import Phrasebook.Locale.Identifier

/-!
The locale of the host, read from its environment. The first variable that is set and not empty
decides; an encoding or a modifier after the identifier does not count, and a value that is no
identifier means the invariant locale.
-/

namespace Phrasebook.Locale

/-- The variables that tell the locale, in the order in which they count. -/
structure Environment where
  languageList : Option Text
  all : Option Text
  messages : Option Text
  lang : Option Text

namespace Environment

def set? (given : Option Text) : Option Text := given.filter fun s => !s.isEmpty

def value? (env : Environment) : Option Text :=
  ((set? env.languageList).map fun s => s.takeWhile (· != ':')).or
    ((set? env.all).or ((set? env.messages).or (set? env.lang)))

end Environment

def withoutModifiers (s : Text) : Text := s.takeWhile fun c => c != '.' && c != '@'

def ofEnvironment (env : Environment) : Locale :=
  match env.value? with
  | none => invariant
  | some value =>
    match parse (withoutModifiers value) with
    | .ok l => l
    | .error _ => invariant

end Phrasebook.Locale
