import Phrasebook.Session.Notification

/-!
What a program can ask of a session, and the answers. Most commands need the localizer that the
session works with and are refused without one; so is a command that names a unit or a family that
does not exist.
-/

namespace Phrasebook

inductive Command where
  | resolve (source : Source) (key : Text) (locale : Option Locale)
  | switch (locale : Locale)
  | family (source : Source)
  | readFamily (loader : Loader) (file : Text)
  | resolveIn (number : Nat) (key : Text) (locale : Locale)
  | load (loader : Loader) (name : Text)
  | catalog
  | subscribe (name : Text) (script : Script)
  | subscribeUnit (name : Text) (unit : Text)
  | unsubscribe (name : Text)
  | bindUnit (name : Text) (source : Source) (key : Text)
  | bindSharedUnit (name : Text) (source : Source) (key : Text)
  | value (unit : Text)
  | dropUnit (unit : Text)
  | start (locale : Locale) (overrides : OverrideSettings)
  | startInHost (env : Locale.Environment)
  | leave
  | share
  | unshare
  | shared (env : Locale.Environment) (adopt : Bool)
  | write (entries : List (Path × FileTree))
  | remove (path : Path)

/-- What is known of the shared localizer: whether it is the one that the session works with, and
whether asking twice gives the same. -/
structure SharedReport where
  isOwn : Bool
  isStable : Bool
  locale : Locale
  version : UInt64
deriving DecidableEq, Repr

inductive Reply where
  | done
  | found (wasThere : Bool)
  | text (text : Text)
  | entries (entries : Option FlatMap)
  | family (file : Text) (number : Nat)
  | number (number : Nat)
  | catalog (size : Nat) (isEmpty : Bool) (overrides : OverrideSettings)
  | unit (key : Text) (file : Text)
  | shared (report : SharedReport)
deriving DecidableEq, Repr

inductive Refusal where
  | noLocalizer
  | unknownUnit (name : Text)
  | unknownFamily (number : Nat)
  | family (error : Family.Error)
  | document (error : Document.Error)
deriving DecidableEq, Repr

abbrev Answer := Except Refusal Reply

namespace Session

def withLocalizer (s : Session) (f : Nat → Localizer → Answer × Session) : Answer × Session :=
  match s.current with
  | none => (.error .noLocalizer, s)
  | some i =>
    match s.localizers[i]? with
    | none => (.error .noLocalizer, s)
    | some z => f i z

def textAnswer : Except Family.Error Text → Answer
  | .ok text => .ok (.text text)
  | .error e => .error (.family e)

def settle (s : Session) (i : Nat) {α : Type} (t : Traced (α × Localizer)) : α × Session :=
  let ((a, z), s) := s.absorb t
  (a, s.setLocalizer i z)

def resolve (s : Session) (source : Source) (key : Text) (locale : Option Locale) :
    Answer × Session :=
  s.withLocalizer fun i z =>
    let l := locale.getD z.current
    let (result, s) := s.settle i (z.resolve s.resources source key l)
    (textAnswer result, s)

def family (s : Session) (source : Source) : Answer × Session :=
  s.withLocalizer fun i z =>
    let (result, s) := s.settle i (z.family s.resources source)
    match result with
    | .error e => (.error (.family e), s)
    | .ok f =>
      let (number, s) := s.showFamily (.catalogued i source.file)
      (.ok (.family f.file number), s)

def readFamily (s : Session) (loader : Loader) (file : Text) : Answer × Session :=
  let (result, s) := s.absorb (Family.read loader s.resources file)
  match result with
  | .error e => (.error (.family e), s)
  | .ok f =>
    let (number, s) := s.showFamily (.separate s.separate.length)
    (.ok (.number number), { s with separate := s.separate ++ [f] })

def familyAt? (s : Session) : FamilyRef → Option Family
  | .catalogued i file => s.localizers[i]?.bind fun z => z.catalog.families.find? file
  | .separate n => s.separate[n]?

def putFamily (s : Session) (f : Family) : FamilyRef → Session
  | .catalogued i file =>
    match s.localizers[i]? with
    | some z => s.setLocalizer i { z with catalog := z.catalog.put file f }
    | none => s
  | .separate n => { s with separate := s.separate.set n f }

def resolveIn (s : Session) (number : Nat) (key : Text) (l : Locale) : Answer × Session :=
  match s.shown[number]?.bind fun ref => (s.familyAt? ref).map fun f => (ref, f) with
  | none => (.error (.unknownFamily number), s)
  | some (ref, f) =>
    let ((text, f), s) := s.absorb (f.resolve s.resources key l)
    (.ok (.text text), s.putFamily f ref)

def load (s : Session) (loader : Loader) (name : Text) : Answer × Session :=
  let (result, s) := s.absorb (loader.load s.resources name)
  match result with
  | .ok entries => (.ok (.entries entries), s)
  | .error e => (.error (.document e), s)

def bindUnit (s : Session) (i : Nat) (name : Text) (source : Source) (key : Text) :
    Answer × Session :=
  (.ok (.unit key source.file),
    { s with units := s.units.insert name ⟨i, .ofKey source key⟩ })

def value (s : Session) (name : Text) : Answer × Session :=
  match s.units.find? name with
  | none => (.error (.unknownUnit name), s)
  | some b =>
    match s.localizers[b.localizer]? with
    | none => (.error (.unknownUnit name), s)
    | some z =>
      let ((result, unit, z), s) := s.absorb (b.unit.value z s.resources)
      let s := s.setLocalizer b.localizer z
      (textAnswer result, { s with units := s.units.insert name { b with unit } })

def subscribeUnit (s : Session) (name : Text) (unit : Text) : Answer × Session :=
  match s.units.find? unit with
  | none => (.error (.unknownUnit unit), s)
  | some b =>
    (.ok .done, s.subscribe b.localizer name (.text name b.unit.source b.unit.key) [])

def workWith (s : Session) (z : Localizer) : Session :=
  let (i, s) := s.addLocalizer z
  { s with current := some i }

def reportShared (s : Session) (env : Locale.Environment) (adopt : Bool) : Answer × Session :=
  let own := s.current
  let (i, s) := s.sharedLocalizer env
  let (again, s) := s.sharedLocalizer env
  match s.localizers[i]? with
  | none => (.error .noLocalizer, s)
  | some z =>
    (.ok (.shared ⟨own = some i, again = i, z.current, z.version⟩),
      if adopt then { s with current := some i } else s)

def write (s : Session) (entries : List (Path × FileTree)) : Session :=
  let files := entries.foldl (fun files (path, node) => files.plant path node) s.resources.files
  { s with resources := { s.resources with files } }

def remove (s : Session) (path : Path) : Session :=
  { s with resources := { s.resources with files := s.resources.files.remove path } }

def perform (s : Session) : Command → Answer × Session
  | .resolve source key locale => s.resolve source key locale
  | .switch l => s.withLocalizer fun i _ => (.ok .done, s.switch i l)
  | .family source => s.family source
  | .readFamily loader file => s.readFamily loader file
  | .resolveIn number key l => s.resolveIn number key l
  | .load loader name => s.load loader name
  | .catalog => s.withLocalizer fun _ z =>
      (.ok (.catalog z.catalog.size z.catalog.isEmpty z.catalog.overrides), s)
  | .subscribe name script => s.withLocalizer fun i _ =>
      (.ok .done, s.subscribe i name (.locale name) script)
  | .subscribeUnit name unit => s.subscribeUnit name unit
  | .unsubscribe name => (.ok (.found (s.subscriptions.contains name)), s.unsubscribe name)
  | .bindUnit name source key => s.withLocalizer fun i _ => s.bindUnit i name source key
  | .bindSharedUnit name source key =>
      let (i, s) := s.sharedLocalizer ⟨none, none, none, none⟩
      s.bindUnit i name source key
  | .value unit => s.value unit
  | .dropUnit unit =>
      (.ok (.found (s.units.contains unit)),
        { s with units := s.units.filter fun (n, _) => n != unit })
  | .start l overrides => (.ok .done, s.workWith (.start l overrides))
  | .startInHost env =>
      (.ok .done, s.workWith (.start (Locale.ofEnvironment env) OverrideSettings.default))
  | .leave => (.ok .done, { s with current := none })
  | .share => s.withLocalizer fun i _ => (.ok .done, { s with shared := some i })
  | .unshare => (.ok .done, { s with shared := none })
  | .shared env adopt => s.reportShared env adopt
  | .write entries => (.ok .done, s.write entries)
  | .remove path => (.ok .done, s.remove path)

def run (s : Session) : List Command → List Answer × Session
  | [] => ([], s)
  | c :: rest =>
    let (answer, s) := s.perform c
    let (answers, s) := run s rest
    (answer :: answers, s)

end Session

end Phrasebook
