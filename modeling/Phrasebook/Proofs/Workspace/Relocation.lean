import Mathlib.Data.List.Forall2
import Phrasebook.Proofs.Accessors.Generation
import Phrasebook.Proofs.Path
import Phrasebook.Settings.Project
import Phrasebook.Workspace

/-! A project that lies elsewhere. What is generated from it is told from its tree and its settings,
as long as what the settings say means one place under both roots; only a document outside the
project directory, which keeps its whole path, shows where the project lies. -/
namespace Phrasebook

namespace DocumentFilter

open Ignore (pathAt)

def chooses (included excluded : List Glob.Pattern) (names : List Bytes) : Bool :=
  matchesAny included (pathAt names) && !matchesAny excluded (pathAt names)

theorem isDocument_join {root : Path} (named : root ≠ []) (included excluded : List Glob.Pattern)
    {names : List Bytes} (place : Path.PlainPlace names) :
    isDocument ⟨root, included, excluded⟩ (Path.join root (pathAt names)) =
      chooses included excluded names := by
  have lies : root.components = root.components ++ [] := (List.append_nil _).symm
  rw [isDocument, place.relativeTo_join named lies]
  rfl

/-- The patterns depend on the root through the override directory alone. -/
theorem ofSettings_relocated {root root' : Path} {s : Settings}
    (same : overridePattern? root s.fileOverrides = overridePattern? root' s.fileOverrides) :
    (∃ e, ofSettings root s = .error e ∧ ofSettings root' s = .error e) ∨
      ∃ included excluded, ofSettings root s = .ok ⟨root, included, excluded⟩ ∧
        ofSettings root' s = .ok ⟨root', included, excluded⟩ := by
  rw [ofSettings, ofSettings, same]
  cases readPatterns Settings.includeField s.includePatterns with
  | error e => exact .inl ⟨e, rfl, rfl⟩
  | ok included =>
      cases readPatterns Settings.excludeField
          (s.excludePatterns ++ (overridePattern? root' s.fileOverrides).toList) with
      | error e => exact .inl ⟨e, rfl, rfl⟩
      | ok excluded => exact .inr ⟨included, excluded, rfl, rfl⟩

end DocumentFilter

namespace Accessors

open Ignore (pathAt)

/-- Below directories that lie alike, a place has one relative path. -/
theorem relativePath_relocated {root root' base base' : Path} (named : root ≠ [])
    (named' : root' ≠ []) {sub : List Path.Component}
    (lies : base.components = root.components ++ sub)
    (lies' : base'.components = root'.components ++ sub)
    {names : List Bytes} (place : Path.PlainPlace names)
    (inside : Path.relativeTo base (Path.join root (pathAt names)) ≠ none) :
    relativePath (Path.join root (pathAt names)) base =
      relativePath (Path.join root' (pathAt names)) base' := by
  have notEmpty : ∀ {root base : Path}, root ≠ [] → base.components = root.components ++ sub →
      ¬ base.isEmpty = true := by
    intro root base named lies empty
    rw [List.isEmpty_iff.mp empty] at lies
    exact Path.components_ne_nil named (List.append_eq_nil_iff.mp lies.symm).1
  have left := place.relativeTo_join named lies
  have left' := place.relativeTo_join named' lies'
  rw [left] at inside
  rw [relativePath, relativePath, if_neg (notEmpty named lies), if_neg (notEmpty named' lies'),
    left, left']
  split at inside
  · rw [if_pos ‹_›]
    rfl
  · exact (inside rfl).elim

end Accessors

namespace Workspace

open Ignore (pathAt)
open Accessors (DocumentResult GeneratedFile emit relativePath)

def results (files : FileSystem) (p : Project) : Except Error (List DocumentResult) :=
  (findDocuments files p.root p.settings).map fun paths =>
    Accessors.generateBatch files p.documentBase p.settings.options paths

/-- No directory has the empty path. -/
theorem results_of_empty (files : FileSystem) {p : Project} (empty : p.root = []) :
    results files p = .error (.notDirectory []) := by
  have nowhere : files.isDirectoryAt [] = false := rfl
  rw [results, findDocuments, empty, nowhere]
  rfl

/-- What the results depend on: whether there is a root directory, what is met below it, and the
text at every path. -/
structure View where
  isDirectory : Bool
  found : List FileTree.Found
  readText : Path → Except FileTree.Fault Text

namespace View

def ofFiles (files : FileSystem) (root : Path) : View :=
  ⟨files.isDirectoryAt root, Ignore.walk files root, files.readText⟩

def documents (v : View) (root : Path) (s : Settings) : Except Error (List Path) :=
  if !v.isDirectory then .error (.notDirectory root)
  else
    match DocumentFilter.ofSettings root s with
    | .error e => .error (.filter e)
    | .ok f =>
      let found := v.found.filter fun e => e.node.isFile && f.isDocument e.path
      .ok (Sorting.sort Path.le (found.map (·.path)))

def outcomeAt (v : View) (base : Path) (o : Accessors.Options) (path : Path) : Accessors.Outcome :=
  match v.readText path with
  | .error _ => .failed (.io path)
  | .ok text =>
    match Accessors.generate text path base o with
    | .error e => .failed e
    | .ok none => .skipped
    | .ok (some file) => .generated file

def results (v : View) (p : Project) : Except Error (List DocumentResult) :=
  (v.documents p.root p.settings).map fun paths =>
    paths.map fun path => ⟨path, v.outcomeAt p.documentBase p.settings.options path⟩

theorem results_ofFiles (files : FileSystem) (p : Project) :
    (ofFiles files p.root).results p = Workspace.results files p := rfl

end View

/-- Something that lies below a root, and its text if it is a file that can be read. -/
structure Entry where
  names : List Bytes
  isFile : Bool
  text : Option Text

/-- A view shows a tree below a root. -/
structure Shows (v : View) (root : Path) (tree : List Entry) : Prop where
  isDirectory : v.isDirectory = true
  found : (v.found.map fun e => (e.path, e.node.isFile)) =
    tree.map fun e => (Path.join root (pathAt e.names), e.isFile)
  texts : ∀ e ∈ tree, e.isFile = true →
    (v.readText (Path.join root (pathAt e.names))).toOption = e.text

/-- Settings that mean the same places under both roots. -/
structure SamePlaces (p p' : Project) : Prop where
  settings : p'.settings = p.settings
  base : ∃ sub, p.documentBase.components = p.root.components ++ sub ∧
    p'.documentBase.components = p'.root.components ++ sub
  overrides : p.settings.fileOverrides.enabled = true →
    DocumentFilter.overrideDir? p.root p.settings.fileOverrides =
      DocumentFilter.overrideDir? p'.root p.settings.fileOverrides

/-- Settings that say where things are from the root. -/
structure Relative (s : Settings) : Prop where
  base : Path.isAbsolute (Path.ofText s.projectDir) = false
  overrides : s.fileOverrides.enabled = true → Path.isAbsolute s.fileOverrides.root = false

theorem Relative.samePlaces {p p' : Project} (relative : Relative p.settings)
    (settings : p'.settings = p.settings) (named : p.root ≠ []) (named' : p'.root ≠ []) :
    SamePlaces p p' where
  settings := settings
  base := ⟨_, Path.components_join named relative.base, by
    rw [Project.documentBase, settings]
    exact Path.components_join named' relative.base⟩
  overrides := fun enabled => by
    rw [DocumentFilter.overrideDir?, DocumentFilter.overrideDir?, relative.overrides enabled]
    rfl

/-- Two outcomes for one document that lies elsewhere. They are of one kind; a document below the
project directory has one generated file, and any other names its own path in its source. -/
inductive Alike (p p' : Project) (path path' : Path) : Accessors.Outcome → Accessors.Outcome → Prop
  | unreadable : Alike p p' path path' (.failed (.io path)) (.failed (.io path'))
  | failed (e : Accessors.Error) : Alike p p' path path' (.failed e) (.failed e)
  | skipped : Alike p p' path path' .skipped .skipped
  | generated {file file' : GeneratedFile} (names : ScopeNames) (tree : KeyTree)
      (made : emit p.settings.options ⟨relativePath path p.documentBase, names, tree⟩ =
        .ok file.source)
      (made' : emit p.settings.options ⟨relativePath path' p'.documentBase, names, tree⟩ =
        .ok file'.source)
      (same : Path.relativeTo p.documentBase path ≠ none → file = file') :
      Alike p p' path path' (.generated file) (.generated file')

/-- The results for one place under two roots. -/
structure AlikeAt (p p' : Project) (names : List Bytes) (r r' : DocumentResult) : Prop where
  path : r.path = Path.join p.root (pathAt names)
  path' : r'.path = Path.join p'.root (pathAt names)
  outcome : Alike p p' r.path r'.path r.outcome r'.outcome

def chosen (included excluded : List Glob.Pattern) (tree : List Entry) : List (List Bytes) :=
  Sorting.sort Path.placeLe
    ((tree.filter fun e => e.isFile && DocumentFilter.chooses included excluded e.names).map
      (·.names))

theorem chosen_perm {included excluded : List Glob.Pattern} {tree tree' : List Entry}
    (same : tree.Perm tree') : chosen included excluded tree = chosen included excluded tree' :=
  Sorting.sort_eq_of_perm Path.placeLe_total Path.placeLe_trans Path.placeLe_antisymm
    ((same.filter _).map _)

theorem mem_chosen {included excluded : List Glob.Pattern} {tree : List Entry} {names : List Bytes}
    (h : names ∈ chosen included excluded tree) :
    ∃ e ∈ tree, e.isFile = true ∧ e.names = names := by
  obtain ⟨e, he, rfl⟩ := List.mem_map.mp ((Sorting.sort_perm _ _).mem_iff.mp h)
  obtain ⟨there, file⟩ := List.mem_filter.mp he
  exact ⟨e, there, (Bool.and_eq_true_iff.mp file).1, rfl⟩

theorem found_of_shows {v : View} {root : Path} {tree : List Entry} (shows : Shows v root tree)
    (plain : ∀ e ∈ tree, Path.PlainPlace e.names) (named : root ≠ [])
    (included excluded : List Glob.Pattern) :
    (v.found.filter fun e => e.node.isFile &&
        DocumentFilter.isDocument ⟨root, included, excluded⟩ e.path).map (·.path) =
      ((tree.filter fun e => e.isFile && DocumentFilter.chooses included excluded e.names).map
        (·.names)).map fun names => Path.join root (pathAt names) := by
  let isListed : Path × Bool → Bool := fun q =>
    q.2 && DocumentFilter.isDocument ⟨root, included, excluded⟩ q.1
  have decided : ∀ e ∈ tree, isListed (Path.join root (pathAt e.names), e.isFile) =
      (e.isFile && DocumentFilter.chooses included excluded e.names) := fun e he =>
    congrArg (e.isFile && ·) (DocumentFilter.isDocument_join named included excluded (plain e he))
  calc (v.found.filter fun e => isListed (e.path, e.node.isFile)).map (·.path)
    _ = ((v.found.map fun e => (e.path, e.node.isFile)).filter isListed).map (·.1) := by
        rw [List.filter_map, List.map_map]
        rfl
    _ = ((tree.map fun e => (Path.join root (pathAt e.names), e.isFile)).filter isListed).map
          (·.1) := by rw [shows.found]
    _ = (tree.filter fun e => isListed (Path.join root (pathAt e.names), e.isFile)).map
          fun e => Path.join root (pathAt e.names) := by
        rw [List.filter_map, List.map_map]
        rfl
    _ = ((tree.filter fun e => e.isFile && DocumentFilter.chooses included excluded e.names).map
          (·.names)).map fun names => Path.join root (pathAt names) := by
        rw [List.filter_congr decided, List.map_map]
        rfl

/-- The documents that are found in a tree lie at its chosen places. -/
theorem documents_of_shows {v : View} {root : Path} {tree : List Entry} {s : Settings}
    (shows : Shows v root tree) (plain : ∀ e ∈ tree, Path.PlainPlace e.names) (named : root ≠ [])
    {included excluded : List Glob.Pattern}
    (filter : DocumentFilter.ofSettings root s = .ok ⟨root, included, excluded⟩) :
    v.documents root s =
      .ok ((chosen included excluded tree).map fun names => Path.join root (pathAt names)) := by
  have place : ∀ names ∈ (tree.filter fun e =>
      e.isFile && DocumentFilter.chooses included excluded e.names).map (·.names),
      Path.PlainPlace names := by
    intro names there
    obtain ⟨e, he, rfl⟩ := List.mem_map.mp there
    exact plain e (List.mem_filter.mp he).1
  rw [View.documents, shows.isDirectory, filter]
  dsimp only
  rw [found_of_shows shows plain named, Sorting.sort_map fun a ha b hb =>
    Path.le_join named (place a ha) (place b hb)]
  rfl

def View.resultAt (v : View) (p : Project) (names : List Bytes) : DocumentResult :=
  ⟨Path.join p.root (pathAt names),
    v.outcomeAt p.documentBase p.settings.options (Path.join p.root (pathAt names))⟩

theorem results_of_shows {v : View} {p : Project} {tree : List Entry} (shows : Shows v p.root tree)
    (plain : ∀ e ∈ tree, Path.PlainPlace e.names) (named : p.root ≠ [])
    {included excluded : List Glob.Pattern}
    (filter : DocumentFilter.ofSettings p.root p.settings = .ok ⟨p.root, included, excluded⟩) :
    v.results p = .ok ((chosen included excluded tree).map (v.resultAt p)) := by
  rw [View.results, documents_of_shows shows plain named filter]
  exact congrArg Except.ok (List.map_map ..)

theorem outcomeAt_relocated {v v' : View} {p p' : Project} (places : SamePlaces p p')
    (named : p.root ≠ []) (named' : p'.root ≠ []) {names : List Bytes}
    (place : Path.PlainPlace names)
    (texts : (v.readText (Path.join p.root (pathAt names))).toOption =
      (v'.readText (Path.join p'.root (pathAt names))).toOption) :
    Alike p p' (Path.join p.root (pathAt names)) (Path.join p'.root (pathAt names))
      (v.outcomeAt p.documentBase p.settings.options (Path.join p.root (pathAt names)))
      (v'.outcomeAt p'.documentBase p'.settings.options (Path.join p'.root (pathAt names))) := by
  obtain ⟨sub, lies, lies'⟩ := places.base
  rw [View.outcomeAt, View.outcomeAt, places.settings]
  cases read : v.readText (Path.join p.root (pathAt names)) with
  | error fault =>
      cases read' : v'.readText (Path.join p'.root (pathAt names)) with
      | error fault' => exact .unreadable
      | ok text => rw [read, read'] at texts; cases texts
  | ok text =>
      cases read' : v'.readText (Path.join p'.root (pathAt names)) with
      | error fault' => rw [read, read'] at texts; cases texts
      | ok text' =>
          rw [read, read'] at texts
          cases texts
          have both := Accessors.generate_sameBut text p.settings.options
            (Path.join p.root (pathAt names)) p.documentBase
            (Path.join p'.root (pathAt names)) p'.documentBase
          dsimp only
          generalize Accessors.generate text (Path.join p.root (pathAt names)) p.documentBase
            p.settings.options = made at both ⊢
          generalize Accessors.generate text (Path.join p'.root (pathAt names)) p'.documentBase
            p.settings.options = made' at both ⊢
          cases both with
          | failed e => exact .failed e
          | skipped => exact .skipped
          | generated scope keys emitted emitted' same =>
              refine .generated scope keys emitted emitted' fun inside => same ?_
              exact Accessors.relativePath_relocated named named' lies lies' place inside

/-- What is generated from a project is told by its settings and its tree. Under two roots that hold
one tree, settings that mean the same places are refused alike or give alike results for the same
places in the same order, and settings that are relative to the root mean the same places. -/
theorem generation_relocated {v v' : View} {p p' : Project} {tree tree' : List Entry}
    (named : p.root ≠ []) (named' : p'.root ≠ []) (settings : p'.settings = p.settings)
    (same : tree.Perm tree') (plain : ∀ e ∈ tree, Path.PlainPlace e.names)
    (shows : Shows v p.root tree) (shows' : Shows v' p'.root tree') :
    (∀ files q, (View.ofFiles files q.root).results q = results files q ∧
      (q.root = [] → results files q = .error (.notDirectory []))) ∧
    (Relative p.settings → SamePlaces p p') ∧
    (SamePlaces p p' →
      (∃ e, v.results p = .error e ∧ v'.results p' = .error e) ∨
      ∃ rs rs', v.results p = .ok rs ∧ v'.results p' = .ok rs' ∧
        List.Forall₂ (fun r r' => ∃ names, AlikeAt p p' names r r') rs rs') := by
  refine ⟨fun files q => ⟨View.results_ofFiles files q, results_of_empty files⟩,
    fun relative => relative.samePlaces settings named named', fun places => ?_⟩
  have patterns : DocumentFilter.overridePattern? p.root p.settings.fileOverrides =
      DocumentFilter.overridePattern? p'.root p.settings.fileOverrides := by
    rw [DocumentFilter.overridePattern?, DocumentFilter.overridePattern?]
    split
    · rw [places.overrides ‹_›]
    · rfl
  rcases DocumentFilter.ofSettings_relocated patterns with
    ⟨e, refused, refused'⟩ | ⟨included, excluded, filter, filter'⟩
  · refine .inl ⟨.filter e, ?_, ?_⟩
    · rw [View.results, View.documents, shows.isDirectory, refused]
      rfl
    · rw [View.results, View.documents, shows'.isDirectory, settings, refused']
      rfl
  · have plain' : ∀ e ∈ tree', Path.PlainPlace e.names := fun e he =>
      plain e (same.mem_iff.mpr he)
    rw [← settings] at filter'
    -- Both runs go over the chosen places, in an order that the trees do not tell.
    refine .inr ⟨_, _, results_of_shows shows plain named filter,
      results_of_shows shows' plain' named' filter', ?_⟩
    rw [← chosen_perm same, List.forall₂_map_left_iff, List.forall₂_map_right_iff,
      List.forall₂_same]
    intro names there
    obtain ⟨e, he, file, rfl⟩ := mem_chosen there
    have texts := (shows.texts e he file).trans (shows'.texts e (same.mem_iff.mp he) file).symm
    exact ⟨e.names, rfl, rfl, outcomeAt_relocated places named named' (plain e he) texts⟩

def titleText : Text :=
  "[echoes_config]\ngenerated_class_name = 'Strings'\ngenerated_namespace = 'App'\n".toList ++
    "[translations]\ntitle = 'Title'\n".toList

def titleFile : List Bytes := [Path.ofText "i18n".toList, Path.ofText "strings.toml".toList]

/-- A document in a directory. -/
def titleTree : List Entry :=
  [⟨[Path.ofText "i18n".toList], false, none⟩, ⟨titleFile, true, some titleText⟩]

theorem titleTree_plain : ∀ e ∈ titleTree, Path.PlainPlace e.names := by
  have directory : Path.Plain (Path.ofText "i18n".toList) := by constructor <;> decide +kernel
  have document : Path.Plain (Path.ofText "strings.toml".toList) := by
    constructor <;> decide +kernel
  refine List.forall_mem_cons.mpr ⟨⟨List.cons_ne_nil _ _, ?_⟩,
    List.forall_mem_singleton.mpr ⟨List.cons_ne_nil _ _, ?_⟩⟩
  · exact List.forall_mem_singleton.mpr directory
  · exact List.forall_mem_cons.mpr ⟨directory, List.forall_mem_singleton.mpr document⟩

/-- The document twice, in two projects beside each other in the directory where relative paths
start. -/
def copied : FileSystem :=
  let project : FileTree := .directory [(Path.ofText "i18n".toList,
    .directory [(Path.ofText "strings.toml".toList, .file (Utf8.encode titleText))])]
  let home : FileTree := .directory
    [(Path.ofText "left".toList, project), (Path.ofText "right".toList, project)]
  ⟨.directory [(Path.ofText "srv".toList, home)], [Path.ofText "srv".toList]⟩

def leftCopy : Project := ⟨Path.ofText "left".toList, .default⟩

/-- The other copy, under a root that is spelled at length. -/
def rightCopy : Project := ⟨Path.ofText "./right//".toList, .default⟩

def leftRoot : Path := Path.ofText "/srv/left".toList

def rightRoot : Path := Path.ofText "/srv/right".toList

theorem copied_shows {root : Path}
    (there : root ∈ [leftCopy.root, rightCopy.root, leftRoot, rightRoot]) :
    Shows (.ofFiles copied root) root titleTree := by
  have shown : ∀ root ∈ [leftCopy.root, rightCopy.root, leftRoot, rightRoot],
      copied.isDirectoryAt root = true ∧
      ((Ignore.walk copied root).map fun e => (e.path, e.node.isFile)) =
        (titleTree.map fun e => (Path.join root (pathAt e.names), e.isFile)) ∧
      ∀ e ∈ titleTree, e.isFile = true →
        (copied.readText (Path.join root (pathAt e.names))).toOption = e.text := by
    decide +kernel
  obtain ⟨isDirectory, found, texts⟩ := shown root there
  exact ⟨isDirectory, found, texts⟩

theorem generation_relocated_copied :
    leftCopy.root ≠ [] ∧ rightCopy.root ≠ [] ∧ rightCopy.settings = leftCopy.settings ∧
      (∀ e ∈ titleTree, Path.PlainPlace e.names) ∧
      Shows (.ofFiles copied leftCopy.root) leftCopy.root titleTree ∧
      Shows (.ofFiles copied rightCopy.root) rightCopy.root titleTree ∧
      SamePlaces leftCopy rightCopy ∧
      ∃ rs rs', results copied leftCopy = .ok rs ∧ results copied rightCopy = .ok rs' ∧
        List.Forall₂ (fun r r' => ∃ names, AlikeAt leftCopy rightCopy names r r') rs rs' := by
  have named : leftCopy.root ≠ [] := by decide +kernel
  have named' : rightCopy.root ≠ [] := by decide +kernel
  have settings : rightCopy.settings = leftCopy.settings := rfl
  have left : Shows (.ofFiles copied leftCopy.root) leftCopy.root titleTree :=
    copied_shows (by simp)
  have right : Shows (.ofFiles copied rightCopy.root) rightCopy.root titleTree :=
    copied_shows (by simp)
  have relative : Relative leftCopy.settings :=
    ⟨by decide +kernel, fun enabled => (nomatch enabled)⟩
  obtain ⟨seen, places, agree⟩ := generation_relocated named named' settings (.refl titleTree)
    titleTree_plain left right
  refine ⟨named, named', settings, titleTree_plain, left, right, places relative, ?_⟩
  rw [← (seen copied leftCopy).1, ← (seen copied rightCopy).1]
  rcases agree (places relative) with ⟨e, refused, -⟩ | alike
  · have found : (results copied leftCopy).toOption.isSome := by decide +kernel
    rw [← (seen copied leftCopy).1, refused] at found
    cases found
  · exact alike

def sources (r : Except Error (List DocumentResult)) : Option (List (Option Text)) :=
  r.toOption.map fun rs => rs.map fun r =>
    match r.outcome with
    | .generated file => some file.source
    | _ => none

/-- Valid settings under which one tree is given other sources at another root. -/
structure Tells (s : Settings) (v : View) (root : Path) (v' : View) (root' : Path) : Prop where
  shows : Shows v root titleTree
  shows' : Shows v' root' titleTree
  valid : s.isValid = true
  told : ∃ told told', sources (v.results ⟨root, s⟩) = some told ∧
    sources (v'.results ⟨root', s⟩) = some told' ∧ told ≠ told'

theorem told_of_ne {r r' : Except Error (List DocumentResult)}
    (ran : (sources r).isSome = true ∧ (sources r').isSome = true) (differ : sources r ≠ sources r') :
    ∃ told told', sources r = some told ∧ sources r' = some told' ∧ told ≠ told' := by
  obtain ⟨told, same⟩ := Option.isSome_iff_exists.mp ran.1
  obtain ⟨told', same'⟩ := Option.isSome_iff_exists.mp ran.2
  refine ⟨told, told', same, same', fun equal => differ ?_⟩
  rw [same, same', equal]

/-- A document outside the project directory, an absolute project directory and an absolute
directory of overrides each tell where the project lies. -/
theorem root_told_by_settings :
    Tells { Settings.default with projectDir := "app".toList }
        (.ofFiles copied leftCopy.root) leftCopy.root
        (.ofFiles copied rightCopy.root) rightCopy.root ∧
      Tells { Settings.default with projectDir := "/srv/left".toList }
        (.ofFiles copied leftRoot) leftRoot (.ofFiles copied rightRoot) rightRoot ∧
      Tells { Settings.default with fileOverrides := ⟨true, Path.ofText "/srv/left/i18n".toList⟩ }
        (.ofFiles copied leftRoot) leftRoot (.ofFiles copied rightRoot) rightRoot := by
  refine ⟨⟨copied_shows (by simp), copied_shows (by simp), by decide +kernel, ?_⟩,
    ⟨copied_shows (by simp), copied_shows (by simp), by decide +kernel, ?_⟩,
    ⟨copied_shows (by simp), copied_shows (by simp), by decide +kernel, ?_⟩⟩
  · exact told_of_ne (by decide +kernel) (by decide +kernel)
  · exact told_of_ne (by decide +kernel) (by decide +kernel)
  · exact told_of_ne (by decide +kernel) (by decide +kernel)

end Workspace

end Phrasebook
