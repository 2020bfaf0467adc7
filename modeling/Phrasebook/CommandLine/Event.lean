import Phrasebook.Workspace
import Phrasebook.Settings.Project
import Phrasebook.Accessors.Generation
import Phrasebook.Text.Terminal

/-!
What a run of the generator tells: the files it generated or would generate, the documents that
failed, why it could not start, and at the end how many documents there were of each kind.
-/

namespace Phrasebook.CommandLine

structure Counts where
  generated : Nat
  skipped : Nat
  failed : Nat
deriving DecidableEq, Repr

inductive Failure where
  | project (error : Project.Error)
  | workspace (error : Workspace.Error)

def Failure.message : Failure → Text
  | project e => e.message
  | workspace e => e.message

inductive Event where
  | planned (document : Text) (output : Path)
  | written (document : Text) (output : Path)
  | clash (previous document fileName : Text)
  | unwritten (error : Accessors.Error)
  | ungenerated (path : Path) (error : Accessors.Error)
  | refused (failure : Failure)
  | finished (counts : Counts)

def Event.isError : Event → Bool
  | clash .. | unwritten _ | ungenerated .. | refused _ => true
  | planned .. | written .. | finished _ => false

def field (name value : Text) : Text := ' ' :: name ++ '=' :: value

def Event.title : Event → Text
  | planned .. => "Would generate".toList
  | written .. => "Generated accessors".toList
  | clash previous document fileName =>
    previous ++ " and ".toList ++ document ++ " both generate ".toList ++ fileName ++
      "; rename one of the documents".toList
  | unwritten e => e.message
  | ungenerated path e =>
    "Failed to generate ".toList ++ Path.quoted path ++ ": ".toList ++ e.message
  | refused failure => failure.message
  | finished _ => "Generation finished".toList

def Event.fields : Event → Text
  | planned document output | written document output =>
    field "document".toList document ++ field "output".toList output.toText
  | finished counts =>
    field "generated".toList (Text.ofNat counts.generated) ++
      field "skipped".toList (Text.ofNat counts.skipped) ++
      field "failed".toList (Text.ofNat counts.failed)
  | clash .. | unwritten _ | ungenerated .. | refused _ => []

/-- The line of an event. Controls are spelled out in what it says; its fields stay as they are. -/
def Event.message (e : Event) : Text := Text.shown e.title ++ e.fields

end Phrasebook.CommandLine
