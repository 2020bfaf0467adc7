import Phrasebook.Glob.Pattern
import Phrasebook.Path

/-!
Which paths a pattern matches. The places of a path, one in front of each byte and one at its end,
are marked when the tokens so far can lead there; each token moves the marks, and a pattern matches
when the end is marked at last. Everything is said of bytes: a question mark or a class takes one
byte, and a character takes all bytes of its encoding.
-/

namespace Phrasebook.Glob

/-- Whether stars and question marks stop at slashes, and whether letters match in both cases. -/
structure Options where
  keepSlashes : Bool
  ignoreCase : Bool

def isLetter (b : UInt8) : Bool := (65 ≤ b && b ≤ 90) || (97 ≤ b && b ≤ 122)

def sameByte (o : Options) (a b : UInt8) : Bool :=
  a == b || (o.ignoreCase && isLetter a && isLetter b && (a ||| 32) == (b ||| 32))

/-- Marks of the places of a path; those that are not given are unmarked. -/
abbrev Marks := List Bool

namespace Marks

def either : Marks → Marks → Marks
  | [], other => other
  | marks, [] => marks
  | a :: marks, b :: other => (a || b) :: either marks other

def afterByte (p : UInt8 → Bool) (path : Bytes) (marks : Marks) : Marks :=
  false :: List.zipWith (fun b m => m && p b) path marks

/-- The places after any run of bytes that satisfy `p`; whether such a run has led to the front of
the path is given. -/
def afterRun (p : UInt8 → Bool) (reached : Bool) : Bytes → Marks → Marks
  | [], marks => [reached || marks.headD false]
  | b :: rest, marks =>
    let here := reached || marks.headD false
    here :: afterRun p (here && p b) rest marks.tail

def afterSlash (path : Bytes) (marks : Marks) : Marks := afterByte (· == Path.slash) path marks

def afterAnything (path : Bytes) (marks : Marks) : Marks :=
  afterRun (fun _ => true) false path marks

/-- The marked places, and the places after any slash that follows one. -/
def afterDirectories (path : Bytes) (marks : Marks) : Marks :=
  either marks (afterSlash path (afterAnything path marks))

end Marks

/-- The ranges of bytes that a range of characters means in a class. A character of several bytes
counts as its bytes, and only the inner ends of a range are joined. -/
def byteRanges (range : Char × Char) : List (UInt8 × UInt8) :=
  let low := Utf8.encodeChar range.1
  let high := Utf8.encodeChar range.2
  let single := fun (b : UInt8) => (b, b)
  if range.1 = range.2 then low.map single
  else
    low.dropLast.map single ++ [(low.getLastD 0, high.headD 0)] ++ high.tail.map single

def classHolds (o : Options) (ranges : List (UInt8 × UInt8)) (b : UInt8) : Bool :=
  let holds := fun (x : UInt8) => ranges.any fun (low, high) => low ≤ x && x ≤ high
  holds b || (o.ignoreCase && isLetter b && holds (b ^^^ 32))

mutual

/-- Whether a token takes nothing: a group without any written branch. -/
def isVoid : Token → Bool
  | .alternatives branches => allVoid branches
  | _ => false

def allVoid : List (List Token) → Bool
  | [] => true
  | branch :: rest => branchVoid branch && allVoid rest

def branchVoid : List Token → Bool
  | [] => true
  | t :: rest => isVoid t && branchVoid rest

end

mutual

def after (o : Options) (path : Bytes) (marks : Marks) : Token → Marks
  | .literal c =>
    (Utf8.encodeChar c).foldl (fun marks b => marks.afterByte (sameByte o b) path) marks
  | .one => marks.afterByte (fun b => !(o.keepSlashes && b == Path.slash)) path
  | .run => marks.afterRun (fun b => !(o.keepSlashes && b == Path.slash)) false path
  | .leadingDirectories => marks.afterDirectories path
  | .everythingBelow => (marks.afterSlash path).afterAnything path
  | .innerDirectories => (marks.afterSlash path).afterDirectories path
  | .class negated ranges =>
    let holds := classHolds o (ranges.flatMap byteRanges)
    marks.afterByte (fun b => holds b != negated) path
  | .alternatives branches => if allVoid branches then marks else afterAny o path marks branches

/-- The places after one of the branches; empty branches do not count. -/
def afterAny (o : Options) (path : Bytes) (marks : Marks) : List (List Token) → Marks
  | [] => []
  | branch :: rest =>
    Marks.either (if branchVoid branch then [] else afterAll o path marks branch)
      (afterAny o path marks rest)

def afterAll (o : Options) (path : Bytes) (marks : Marks) : List Token → Marks
  | [] => marks
  | t :: rest => if marks.any id then afterAll o path (after o path marks t) rest else []

end

/-- Whether a pattern takes the whole of a path. Two stars alone take everything. -/
def isMatch (o : Options) (p : Pattern) (path : Bytes) : Bool :=
  match p with
  | [.leadingDirectories] => true
  | _ => (afterAll o path [true] p).getD path.length false

def literal? : Token → Option Char
  | .literal c => some c
  | _ => none

def allLiteral (p : Pattern) : Bool := p.all fun t => (literal? t).isSome

/-- Whether a pattern in a set is tried by the file name of a path, of which it has the end: a name
in any directory, a name ending in any directory, or any other that ends in a literal after its
last star. Patterns of plain characters, alone or after one leading star, are tried by the path. -/
def triedByName (o : Options) (p : Pattern) : Bool :=
  let (leads, body) := match p with
    | .leadingDirectories :: body => (true, body)
    | _ => (false, p)
  let ownName := allLiteral body && !body.isEmpty && body.all (literal? · != some '/')
  if leads && ownName then true
  else if allLiteral p then false
  else
    match body with
    | [.run, .literal '.'] => true
    | .run :: rest => !(allLiteral rest && !o.keepSlashes)
    | _ => !allLiteral body

/-- A path that ends in two dots has no file name, and a pattern that is tried by it does not
match. -/
def isMatchInSet (o : Options) (p : Pattern) (path : Bytes) : Bool :=
  let unnamed := Cut.afterLast Path.slash path == [Path.dot, Path.dot]
  let endsInDot := (p.getLast?.bind literal?) == some '.'
  isMatch o p path && !(unnamed && endsInDot && triedByName o p)

end Phrasebook.Glob
