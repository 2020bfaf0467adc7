import Phrasebook.Path

/-!
The arguments of the generator: the root of the project, an output directory in place of that of the
settings, and whether anything is written. The first argument that is wrong, or that asks for help
or for the version, decides; every option stands at most once and its value is not empty.
-/

namespace Phrasebook.CommandLine

structure Arguments where
  root : Path
  out : Option Path
  check : Bool
deriving DecidableEq, Repr

inductive Request where
  | run (arguments : Arguments)
  | help
  | version
  | malformed
deriving DecidableEq, Repr

structure Reading where
  root : Option Path
  out : Option Path
  check : Bool

def Reading.empty : Reading := ⟨none, none, false⟩

def Reading.finish (r : Reading) : Request :=
  .run ⟨r.root.getD (Path.ofText ".".toList), r.out, r.check⟩

inductive ValueOption where
  | root
  | out

/-- Takes the value of an option, unless the option has one or the value is empty. -/
def Reading.take (r : Reading) (o : ValueOption) (value : Text) : Option Reading :=
  if value.isEmpty then none
  else
    match o with
    | .root => if r.root.isSome then none else some { r with root := some (Path.ofText value) }
    | .out => if r.out.isSome then none else some { r with out := some (Path.ofText value) }

inductive Word where
  | help
  | version
  | check
  | option (o : ValueOption)
  | optionWith (o : ValueOption) (value : Text)
  | ending
  | other

/-- Short flags may have more letters after them; the first one decides. -/
def word (argument : Text) : Word :=
  if argument = "--".toList then .ending
  else if argument = "--help".toList then .help
  else if argument = "--version".toList then .version
  else if argument = "--check".toList then .check
  else if argument = "--root".toList then .option .root
  else if argument = "--out".toList then .option .out
  else
    match Cut.lead "--root=".toList argument, Cut.lead "--out=".toList argument with
    | some value, _ => .optionWith .root value
    | none, some value => .optionWith .out value
    | none, none =>
      match argument with
      | '-' :: 'h' :: _ => .help
      | '-' :: 'V' :: _ => .version
      | _ => .other

/-- Whether an argument may be a value; a lone hyphen may. -/
def isValue (argument : Text) : Bool := argument.head? != some '-' || argument = ['-']

def readFrom (r : Reading) : List Text → Request
  | [] => r.finish
  | argument :: rest =>
    match word argument with
    | .help => .help
    | .version => .version
    | .check => if r.check then .malformed else readFrom { r with check := true } rest
    | .optionWith o value =>
      match r.take o value with
      | some r => readFrom r rest
      | none => .malformed
    | .option o =>
      match rest with
      | value :: rest =>
        if isValue value then
          match r.take o value with
          | some r => readFrom r rest
          | none => .malformed
        else .malformed
      | [] => .malformed
    | .ending => if rest.isEmpty then r.finish else .malformed
    | .other => .malformed

def read (arguments : List Text) : Request := readFrom .empty arguments

end Phrasebook.CommandLine
