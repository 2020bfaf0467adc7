import Phrasebook.Text.Blank

/-!
Language identifiers: a language, then a script, a region and variants, each of them optional, with
hyphens between. Case and order of the written form do not matter; the canonical form has a lower
case language, a title case script, an upper case region, and sorted lower case variants.
-/

namespace Phrasebook

/-- A language identifier in canonical form. The language `und` is no particular one. -/
structure Locale where
  language : Text
  script : Option Text
  region : Option Text
  variants : List Text
deriving DecidableEq, Repr

namespace Locale

/-- Why a subtag is refused: the first has to be a language, any other has to fit its place. -/
inductive Fault where
  | language
  | subtag
deriving DecidableEq, Repr

def Fault.message : Fault → Text
  | language => "The given language subtag is invalid".toList
  | subtag => "Invalid subtag".toList

structure Error where
  input : Text
  fault : Fault
deriving DecidableEq, Repr

def Error.message (e : Error) : Text :=
  "Invalid locale identifier '".toList ++ e.input ++ "': ".toList ++ e.fault.message

def undetermined : Text := "und".toList

/-- The invariant locale, which has no documents of its own. -/
def invariant : Locale := ⟨undetermined, none, none, []⟩

def lower (s : Text) : Text := s.map Char.toLower

def upper (s : Text) : Text := s.map Char.toUpper

def title : Text → Text
  | [] => []
  | c :: rest => c.toUpper :: lower rest

def language? (s : Text) : Option Text :=
  if (s.length = 2 ∨ s.length = 3) ∧ s.all Char.isAlpha then some (lower s) else none

def script? (s : Text) : Option Text :=
  if s.length = 4 ∧ s.all Char.isAlpha then some (title s) else none

def region? (s : Text) : Option Text :=
  if s.length = 2 ∧ s.all Char.isAlpha then some (upper s)
  else if s.length = 3 ∧ s.all Char.isDigit then some s
  else none

/-- Five to eight letters or digits, or four that start with a digit. -/
def variant? (s : Text) : Option Text :=
  if s.all Char.isAlphanum ∧
      ((5 ≤ s.length ∧ s.length ≤ 8) ∨ (s.length = 4 ∧ (s.take 1).all Char.isDigit)) then
    some (lower s)
  else none

def addVariant (v : Text) : List Text → Option (List Text)
  | [] => some [v]
  | w :: rest =>
    if v < w then some (v :: w :: rest)
    else if v = w then none
    else (addVariant v rest).map (w :: ·)

def addVariants (tags : List Text) (variants : List Text) : Option (List Text) :=
  match tags with
  | [] => some variants
  | tag :: rest => do addVariants rest (← addVariant (← variant? tag) variants)

def readRegion (id : Locale) : List Text → Option Locale
  | [] => some id
  | tag :: rest =>
    match region? tag with
    | some r => (addVariants rest []).map fun vs => { id with region := some r, variants := vs }
    | none => (addVariants (tag :: rest) []).map fun vs => { id with variants := vs }

def readScript (id : Locale) : List Text → Option Locale
  | [] => some id
  | tag :: rest =>
    match script? tag with
    | some s => readRegion { id with script := some s } rest
    | none => readRegion id (tag :: rest)

def ofSubtags : List Text → Except Fault Locale
  | [] => .error .language
  | tag :: rest =>
    match language? tag with
    | none => .error .language
    | some l =>
      match readScript ⟨l, none, none, []⟩ rest with
      | none => .error .subtag
      | some id => .ok id

/-- Reads an identifier; white space around it is dropped and underscores count as hyphens. -/
def parse (input : Text) : Except Error Locale :=
  let written := (Text.trim input).map fun c => if c = '_' then '-' else c
  match ofSubtags (Text.segments '-' written) with
  | .ok id => .ok id
  | .error fault => .error ⟨input, fault⟩

def subtags (l : Locale) : List Text :=
  l.language :: (l.script.toList ++ l.region.toList ++ l.variants)

/-- The canonical name, such as `zh-Hans-CN`. -/
def name (l : Locale) : Text := Text.joinWith '-' l.subtags

def isInvariant (l : Locale) : Bool :=
  l.language = undetermined && l.script.isNone && l.region.isNone

def isNeutral (l : Locale) : Bool := l.region.isNone

/-- The bare language, when the identifier has one and says more than it. -/
def languageOnly (l : Locale) : Option Locale :=
  if l.language = undetermined then none
  else
    let bare : Locale := ⟨l.language, none, none, []⟩
    if bare = l then none else some bare

end Locale

end Phrasebook
