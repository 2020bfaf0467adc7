import Phrasebook.Text.Basic

/-!
Glob patterns and how they are read. A question mark stands for one byte and a star for any run of
them; two stars that fill a whole component stand for any number of components; brackets hold a
class, braces hold alternatives, and a backslash takes the next character literally.
-/

namespace Phrasebook.Glob

inductive Token where
  | literal (c : Char)
  | one
  | run
  /-- Two stars at the start: nothing, or any components and the slash after them. -/
  | leadingDirectories
  /-- Two stars at the end, after a slash: everything below. -/
  | everythingBelow
  /-- Two stars between slashes: one slash, or components between two. -/
  | innerDirectories
  | class (negated : Bool) (ranges : List (Char × Char))
  | alternatives (branches : List (List Token))
deriving Repr

abbrev Pattern := List Token

inductive Fault where
  | unclosedClass
  | invalidRange (low high : Char)
  | unopenedAlternatives
  | unclosedAlternatives
  | danglingEscape
deriving DecidableEq, Repr

def Fault.message : Fault → Text
  | unclosedClass => "unclosed character class; missing ']'".toList
  | invalidRange low high =>
    "invalid range; '".toList ++ [low] ++ "' > '".toList ++ [high] ++ "'".toList
  | unopenedAlternatives =>
    "unopened alternate group; missing '\x7b' (maybe escape '\x7d' with '[\x7d]'?)".toList
  | unclosedAlternatives =>
    "unclosed alternate group; missing '\x7d' (maybe escape '\x7b' with '[\x7b]'?)".toList
  | danglingEscape => "dangling '\\'".toList

/-- The wording of a fault together with the pattern that has it. -/
def Fault.describe (f : Fault) (pattern : Text) : Text :=
  "error parsing glob '".toList ++ pattern ++ "': ".toList ++ f.message

/-- A class while its text is read: ranges so far, last first, whether nothing has been read yet,
and whether a hyphen waits for the upper end of the last range. -/
structure ClassState where
  ranges : List (Char × Char)
  isFirst : Bool
  inRange : Bool

/-- Takes one character into a class. A bracket or hyphen that comes first stands for itself. -/
def ClassState.take (st : ClassState) (c : Char) : Except Fault ClassState :=
  if c = '-' ∧ !st.isFirst ∧ !st.inRange then .ok { st with inRange := true }
  else
    match st.inRange, st.ranges with
    | true, (low, _) :: rest =>
      if c < low then .error (.invalidRange low c) else .ok ⟨(low, c) :: rest, false, false⟩
    | _, ranges => .ok ⟨(c, c) :: ranges, false, false⟩

/-- The ranges of a finished class; a hyphen that still waits stands for itself. -/
def ClassState.close (st : ClassState) : List (Char × Char) :=
  (if st.inRange then ('-', '-') :: st.ranges else st.ranges).reverse

def readClass (st : ClassState) : Text → Except Fault (List (Char × Char) × Text)
  | [] => .error .unclosedClass
  | c :: rest =>
    if c = ']' ∧ !st.isFirst then .ok (st.close, rest)
    else
      match st.take c with
      | .ok st => readClass st rest
      | .error f => .error f

def classToken (s : Text) : Except Fault (Token × Text) := do
  let (negated, s) := match s with
    | '!' :: rest | '^' :: rest => (true, rest)
    | _ => (false, s)
  let (ranges, rest) ← readClass ⟨[], true, false⟩ s
  .ok (.class negated ranges, rest)

/-- What is open while a pattern is read: the tokens of the branch at hand, last first, and around
it the groups that are not closed, each with its finished branches and the tokens before it. -/
structure Stack where
  branch : List Token
  groups : List (List (List Token) × List Token)

namespace Stack

def push (st : Stack) (t : Token) : Stack := { st with branch := t :: st.branch }

def openGroup (st : Stack) : Stack := ⟨[], ([], st.branch) :: st.groups⟩

/-- A comma ends a branch inside a group and is an ordinary character outside. -/
def comma (st : Stack) : Stack :=
  match st.groups with
  | [] => st.push (.literal ',')
  | (done, before) :: groups => ⟨[], (st.branch.reverse :: done, before) :: groups⟩

def closeGroup (st : Stack) : Except Fault Stack :=
  match st.groups with
  | [] => .error .unopenedAlternatives
  | (done, before) :: groups =>
    .ok ⟨.alternatives (st.branch.reverse :: done).reverse :: before, groups⟩

/-- Puts a token for two stars in the place of the slash before them; after another such token
nothing changes. -/
def mergeStars (st : Stack) (t : Token) : Stack :=
  match st.branch with
  | .leadingDirectories :: _ | .everythingBelow :: _ => st
  | _ :: before => { st with branch := t :: before }
  | [] => st.push t

end Stack

/-- Two stars, of which the character before is known: the new stack, the last character that was
used up, and what is left. -/
def twoStars (st : Stack) (previous : Option Char) (rest : Text) : Stack × Char × Text :=
  let plain := ((st.push .run).push .run, '*', rest)
  if st.branch.isEmpty then
    match rest with
    | [] => (st.push .leadingDirectories, '*', [])
    | c :: after => if c = '/' then (st.push .leadingDirectories, '/', after) else plain
  else
    let startsBranch := !st.groups.isEmpty && (previous == some ',' || previous == some '{')
    if previous != some '/' && !startsBranch then plain
    else
      match rest with
      | [] => (st.mergeStars .everythingBelow, '*', [])
      | c :: after =>
        if c = '/' then (st.mergeStars .innerDirectories, '/', after)
        else if (c = ',' ∨ c = '}') ∧ !st.groups.isEmpty then
          (st.mergeStars .everythingBelow, '*', rest)
        else plain

/-- Reads tokens after a character. Where unclosed classes are allowed, a bracket without its
partner is an ordinary character, and so are the brackets after it. -/
def readTokens (allowUnclosed : Bool) : (fuel : Nat) → Stack → (plainBrackets : Bool) →
    (previous : Option Char) → Text → Except Fault Stack
  | 0, st, _, _, _ => .ok st
  | _, st, _, _, [] => .ok st
  | fuel + 1, st, plainBrackets, previous, c :: rest =>
    let next := fun (st : Stack) (left : Text) =>
      readTokens allowUnclosed fuel st plainBrackets (some c) left
    match c with
    | '?' => next (st.push .one) rest
    | '*' =>
      match rest with
      | '*' :: rest =>
        let (st, last, left) := twoStars st previous rest
        readTokens allowUnclosed fuel st plainBrackets (some last) left
      | _ => next (st.push .run) rest
    | '[' =>
      if plainBrackets then next (st.push (.literal '[')) rest
      else
        match classToken rest with
        | .ok (t, left) => readTokens allowUnclosed fuel (st.push t) plainBrackets (some ']') left
        | .error .unclosedClass =>
          if allowUnclosed then
            readTokens allowUnclosed fuel (st.push (.literal '[')) true (some '[') rest
          else .error .unclosedClass
        | .error f => .error f
    | '{' => next st.openGroup rest
    | '}' =>
      match st.closeGroup with
      | .ok st => next st rest
      | .error f => .error f
    | ',' => next st.comma rest
    | '\\' =>
      match rest with
      | [] => .error .danglingEscape
      | d :: left =>
        readTokens allowUnclosed fuel (st.push (.literal d)) plainBrackets (some d) left
    | _ => next (st.push (.literal c)) rest

def parse (allowUnclosed : Bool) (s : Text) : Except Fault Pattern := do
  let st ← readTokens allowUnclosed s.length ⟨[], []⟩ false none s
  if st.groups.isEmpty then .ok st.branch.reverse else .error .unclosedAlternatives

def isSpecial (c : Char) : Bool :=
  c == '?' || c == '*' || c == '[' || c == ']' || c == '{' || c == '}'

/-- A pattern for a text itself: every special character becomes a class of its own. -/
def escape (s : Text) : Text := s.flatMap fun c => if isSpecial c then ['[', c, ']'] else [c]

end Phrasebook.Glob
