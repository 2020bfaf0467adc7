import Phrasebook.Proofs.Glob.Escape
import Phrasebook.Proofs.Resources.Name
import Phrasebook.Proofs.Text.Utf8
import Phrasebook.Settings.Project
import Phrasebook.Workspace

/-! Settings that were once found valid serve for good. Whatever output directories are asked for
later, they stay valid, and documents can be chosen by them below every root. A pattern by which
documents cannot be chosen is one that validation names. -/
namespace Phrasebook

namespace Settings

def Readable (pattern : Text) : Prop := ∃ p, Glob.parse false pattern = .ok p

/-- The name of a pattern in a field. -/
def patternField (field : Text) (i : Nat) : Text := field ++ '[' :: Text.ofNat i ++ [']']

def noOutputDir : FieldError := ⟨"outputDir".toList, .noOutputDir⟩

theorem mem_patternErrors (field : Text) {pattern : Text} {patterns : List Text} {i : Nat}
    {fault : Glob.Fault} (there : patterns[i]? = some pattern)
    (failed : Glob.parse false pattern = .error fault) :
    ⟨patternField field i, .badPattern pattern fault⟩ ∈ patternErrors field patterns := by
  obtain ⟨inside, same⟩ := List.getElem?_eq_some_iff.mp there
  refine List.mem_flatten.mpr ⟨_, List.mem_mapIdx.mpr ⟨i, inside, rfl⟩, ?_⟩
  rw [same, failed]
  exact List.mem_singleton.mpr rfl

theorem mem_errors_of_patternErrors {s : Settings} {e : FieldError}
    (h : e ∈ patternErrors includeField s.includePatterns ∨
      e ∈ patternErrors excludeField s.excludePatterns) : e ∈ s.errors := by
  simp only [errors, List.mem_append]
  rcases h with included | excluded
  · exact .inl (.inl (.inl (.inl (.inl (.inr included)))))
  · exact .inl (.inl (.inl (.inl (.inr excluded))))

theorem isValid_iff {s : Settings} : s.isValid = true ↔ s.errors = [] := List.isEmpty_iff

/-- Of valid settings with another output directory, only that can be wrong. -/
theorem errors_withOutputDir {s : Settings} (valid : s.isValid = true) (dir : Text) :
    ({ s with outputDir := dir } : Settings).errors = if dir = [] then [noOutputDir] else [] := by
  have nothing := isValid_iff.mp valid
  simp only [errors, List.append_eq_nil_iff] at nothing
  obtain ⟨⟨⟨⟨⟨⟨some, included⟩, excluded⟩, -⟩, resources⟩, crate⟩, root⟩ := nothing
  simp only [errors, some, included, excluded, resources, crate, root, List.nil_append,
    List.append_nil]
  cases dir <;> rfl

/-- A pattern of the settings that cannot be read is named by its field and its place there. -/
def Names (s : Settings) (e : DocumentFilter.Error) : Prop :=
  ∃ (patterns : List Text) (i : Nat),
    (e.setting = includeField ∧ patterns = s.includePatterns ∨
      e.setting = excludeField ∧ patterns = s.excludePatterns) ∧
    patterns[i]? = some e.pattern ∧
    ⟨patternField e.setting i, .badPattern e.pattern e.fault⟩ ∈ s.errors

end Settings

namespace DocumentFilter

open Settings (Readable)

/-- Patterns are all read, or the first that cannot be read is told. -/
theorem readPatterns_cases (setting : Text) (patterns : List Text) :
    (∃ ps, readPatterns setting patterns = .ok ps) ∨
      ∃ (i : Nat) (pattern : Text) (fault : Glob.Fault), patterns[i]? = some pattern ∧
        Glob.parse false pattern = .error fault ∧
        readPatterns setting patterns = .error ⟨setting, pattern, fault⟩ := by
  induction patterns with
  | nil => exact .inl ⟨[], rfl⟩
  | cons pattern rest ih =>
      rw [readPatterns]
      cases read : Glob.parse false pattern with
      | error fault => exact .inr ⟨0, pattern, fault, rfl, read, rfl⟩
      | ok p =>
          rcases ih with ⟨ps, all⟩ | ⟨i, later, fault, there, failed, told⟩
          · exact .inl ⟨p :: ps, by rw [all]; rfl⟩
          · exact .inr ⟨i + 1, later, fault, there, failed, by rw [told]; rfl⟩

theorem mem_of_mem_trim {c : Char} {s : Text} (h : c ∈ Cut.trim (· == '/') s) : c ∈ s := by
  have inner := (List.dropWhile_sublist _).mem (List.mem_reverse.mp h)
  exact (List.dropWhile_sublist _).mem (List.mem_reverse.mp inner)

theorem mem_of_mem_dropDotSlashes {c : Char} {s : Text} (h : c ∈ Resource.dropDotSlashes s) :
    c ∈ s := by
  rcases Resource.dropDotSlashes_eq_or s with same | ⟨above, same⟩
  · rwa [same]
  · rw [same]
    exact List.mem_append_right _ (List.mem_cons_of_mem _ h)

/-- Whatever the override directory is called, the pattern for what is below it can be read. -/
theorem readable_of_overridePattern? {root : Path} {o : OverrideSettings} {pattern : Text}
    (h : overridePattern? root o = some pattern) : Readable pattern := by
  rw [overridePattern?] at h
  split at h
  · obtain ⟨dir, hdir, rfl⟩ := Option.map_eq_some_iff.mp h
    obtain ⟨written, -⟩ := Option.filter_eq_some_iff.mp hdir
    obtain ⟨p, -, rfl⟩ := Option.map_eq_some_iff.mp written
    -- The directory is written with slashes, so that nothing in it is left unescaped.
    have unescaped : '\\' ∉ Cut.trim (· == '/')
        (Resource.dropDotSlashes (Resource.normalize p.toText)) := fun there =>
      Resource.backslash_not_mem_normalize _ (mem_of_mem_dropDotSlashes (mem_of_mem_trim there))
    exact ⟨_, Glob.parse_escape_below unescaped⟩
  · cases h

/-- Documents can be chosen by the patterns, or one of them cannot be read. -/
theorem ofSettings_cases (root : Path) (s : Settings) :
    (∃ f, ofSettings root s = .ok f) ∨ ∃ e, ofSettings root s = .error e ∧ s.Names e := by
  rw [ofSettings]
  rcases readPatterns_cases Settings.includeField s.includePatterns with
    ⟨included, all⟩ | ⟨i, pattern, fault, there, failed, told⟩
  · rw [all]
    rcases readPatterns_cases Settings.excludeField
        (s.excludePatterns ++ (overridePattern? root s.fileOverrides).toList) with
      ⟨excluded, more⟩ | ⟨i, pattern, fault, there, failed, told⟩
    · rw [more]
      exact .inl ⟨⟨root, included, excluded⟩, rfl⟩
    · rw [told]
      -- The pattern of the override directory is not the one at fault.
      have own : s.excludePatterns[i]? = some pattern := by
        rw [List.getElem?_append] at there
        split at there
        · exact there
        · obtain ⟨p, read⟩ := readable_of_overridePattern?
            (Option.mem_toList.mp (List.mem_of_getElem? there))
          cases failed.symm.trans read
      have named := Settings.mem_patternErrors Settings.excludeField own failed
      exact .inr ⟨⟨Settings.excludeField, pattern, fault⟩, rfl, s.excludePatterns, i,
        .inr ⟨rfl, rfl⟩, own, Settings.mem_errors_of_patternErrors (.inr named)⟩
  · rw [told]
    have named := Settings.mem_patternErrors Settings.includeField there failed
    exact .inr ⟨⟨Settings.includeField, pattern, fault⟩, rfl, s.includePatterns, i,
      .inl ⟨rfl, rfl⟩, there, Settings.mem_errors_of_patternErrors (.inl named)⟩

theorem ofSettings_of_isValid (root : Path) {s : Settings} (valid : s.isValid = true) :
    ∃ f, ofSettings root s = .ok f := by
  refine (ofSettings_cases root s).resolve_right ?_
  rintro ⟨e, -, patterns, i, -, -, named⟩
  rw [Settings.isValid_iff.mp valid] at named
  cases named

end DocumentFilter

/-- Where documents can be chosen, a search does not fail for the patterns. -/
theorem Workspace.findDocuments_of_filter {base : Path} {s : Settings} {f : DocumentFilter}
    (chosen : DocumentFilter.ofSettings base s = .ok f) (files : FileSystem)
    (e : DocumentFilter.Error) : findDocuments files base s ≠ .error (.filter e) := by
  rw [findDocuments, chosen]
  split <;> nofun

namespace Project

theorem ofSettings_eq_ok_iff {root : Path} {s : Settings} {p : Project} :
    ofSettings root s = .ok p ↔ s.isValid = true ∧ p = ⟨root, s⟩ := by
  rw [ofSettings]
  split
  · rename_i valid
    exact ⟨fun made => ⟨valid, (Except.ok.inj made).symm⟩, fun ⟨_, same⟩ => same ▸ rfl⟩
  · rename_i invalid
    exact ⟨nofun, fun ⟨valid, _⟩ => (invalid valid).elim⟩

theorem isValid_of_load {files : FileSystem} {root : Path} {p : Project}
    (loaded : load files root = .ok p) : p.settings.isValid = true := by
  have bound : ∀ s, ofSettings root s = .ok p → p.settings.isValid = true := by
    intro s made
    obtain ⟨valid, rfl⟩ := ofSettings_eq_ok_iff.mp made
    exact valid
  rw [load] at loaded
  split at loaded
  · exact bound _ loaded
  · cases loaded
  · split at loaded
    · cases loaded
    · exact bound _ loaded

/-- A project that a program holds, asked to take another output directory: the answer, and the
project from then on. -/
def redirect (p : Project) (dir : Path) : Except Error Unit × Project :=
  match p.withOutputDir dir with
  | .ok changed => (.ok (), changed)
  | .error e => (.error e, p)

def redirectAll (p : Project) : List Path → List (Except Error Unit) × Project
  | [] => ([], p)
  | dir :: rest =>
    let (answer, p) := p.redirect dir
    let (answers, p) := redirectAll p rest
    (answer :: answers, p)

/-- The answer to a new output directory where nothing else is wrong. -/
def redirectAnswer (dir : Path) : Except Error Unit :=
  if dir = [] then .error (.invalid [Settings.noOutputDir]) else .ok ()

/-- The settings after output directories were asked for: the last one that has a name counts. -/
def redirected (s : Settings) (dirs : List Path) : Settings :=
  { s with outputDir := ((dirs.filter (· ≠ [])).getLast?.map Path.toText).getD s.outputDir }

theorem isValid_redirected {s : Settings} (valid : s.isValid = true) (dir : Path) :
    (redirected s [dir]).isValid = true := by
  by_cases empty : dir = []
  · have same : redirected s [dir] = s := by simp [redirected, empty]
    rwa [same]
  · have named : dir.toText ≠ [] := fun none => empty (Utf8.decodeLossy_eq_nil_iff.mp none)
    have changed : redirected s [dir] = { s with outputDir := dir.toText } := by
      simp [redirected, empty]
    rw [Settings.isValid_iff, changed, Settings.errors_withOutputDir valid, if_neg named]

theorem redirected_cons (s : Settings) (dir : Path) (rest : List Path) :
    redirected (redirected s [dir]) rest = redirected s (dir :: rest) := by
  by_cases empty : dir = []
  · simp [redirected, empty]
  · simp [redirected, empty, List.getLast?_cons]

theorem redirect_of_isValid {p : Project} (valid : p.settings.isValid = true) (dir : Path) :
    p.redirect dir = (redirectAnswer dir, ⟨p.root, redirected p.settings [dir]⟩) := by
  have errors := Settings.errors_withOutputDir valid dir.toText
  have named : dir.toText = [] ↔ dir = [] := Utf8.decodeLossy_eq_nil_iff
  simp only [named] at errors
  rw [redirect, withOutputDir, ofSettings, Settings.isValid, errors, redirectAnswer, redirected]
  by_cases empty : dir = []
  · simp [empty]
  · simp [empty]

theorem redirectAll_of_isValid {p : Project} (valid : p.settings.isValid = true)
    (dirs : List Path) :
    p.redirectAll dirs = (dirs.map redirectAnswer, ⟨p.root, redirected p.settings dirs⟩) ∧
      (redirected p.settings dirs).isValid = true := by
  induction dirs generalizing p with
  | nil => exact ⟨rfl, valid⟩
  | cons dir rest ih =>
      obtain ⟨ran, still⟩ := ih (p := ⟨p.root, redirected p.settings [dir]⟩)
        (isValid_redirected valid dir)
      rw [redirected_cons] at ran still
      refine ⟨?_, still⟩
      rw [redirectAll, redirect_of_isValid valid]
      simp only [ran, List.map_cons]

/-- A project, made of valid settings or loaded, and then asked for any output directories. Only an
empty one is refused, which changes nothing; any other takes the place of the last and of nothing
else. The settings are valid throughout, so that documents can be chosen and looked for below every
root. Where settings are such that documents cannot be chosen, validation names the pattern. -/
theorem settings_stay_usable {root : Path} {p q : Project}
    (made : (∃ s, ofSettings root s = .ok p) ∨ ∃ files, load files root = .ok p)
    {dirs : List Path} {answers : List (Except Error Unit)}
    (ran : p.redirectAll dirs = (answers, q)) :
    (answers = dirs.map redirectAnswer ∧ q = ⟨p.root, redirected p.settings dirs⟩) ∧
    q.settings.isValid = true ∧
    (∀ base, ∃ f, DocumentFilter.ofSettings base q.settings = .ok f) ∧
    (∀ files base e, Workspace.findDocuments files base q.settings ≠ .error (.filter e)) ∧
    (∀ dir, (∀ e, (q.redirect dir).1 = .error e → (q.redirect dir).2 = q) ∧
      ((q.redirect dir).1 = .ok () → (q.redirect dir).2 =
        { q with settings := { q.settings with outputDir := dir.toText } })) ∧
    ∀ s base e, DocumentFilter.ofSettings base s = .error e → s.Names e := by
  have valid : p.settings.isValid = true := by
    rcases made with ⟨s, made⟩ | ⟨files, loaded⟩
    · obtain ⟨valid, rfl⟩ := ofSettings_eq_ok_iff.mp made
      exact valid
    · exact isValid_of_load loaded
  obtain ⟨shape, still⟩ := redirectAll_of_isValid valid dirs
  rw [ran] at shape
  obtain ⟨rfl, rfl⟩ := Prod.mk.inj shape
  refine ⟨⟨rfl, rfl⟩, still, fun base => DocumentFilter.ofSettings_of_isValid base still,
    fun files base e failed => ?_, fun dir => ?_, fun s base e failed => ?_⟩
  · obtain ⟨f, chosen⟩ := DocumentFilter.ofSettings_of_isValid base still
    exact Workspace.findDocuments_of_filter chosen files e failed
  · rw [redirect_of_isValid (p := ⟨p.root, redirected p.settings dirs⟩) still, redirectAnswer]
    by_cases empty : dir = []
    · simp [empty, redirected]
    · simp [empty, redirected]
  · rcases DocumentFilter.ofSettings_cases base s with ⟨f, chosen⟩ | ⟨e', failed', named⟩
    · cases chosen.symm.trans failed
    · cases failed'.symm.trans failed
      exact named

/-- Settings with copies in a directory whose name is full of signs. -/
def copied : Settings :=
  { Settings.default with fileOverrides := ⟨true, Path.ofText "./copies[1]*\\fr/".toList⟩ }

/-- Settings with an excluding pattern that cannot be read. -/
def unclosed : Settings :=
  { Settings.default with excludePatterns := ["target/**".toList, "[old".toList] }

theorem settings_stay_usable_copied :
    ofSettings [] copied = .ok ⟨[], copied⟩ ∧
      (⟨[], copied⟩ : Project).redirectAll [Path.ofText "out".toList, []] =
        ([.ok (), .error (.invalid [Settings.noOutputDir])],
          ⟨[], { copied with outputDir := "out".toList }⟩) ∧
      ({ copied with outputDir := "out".toList } : Settings).isValid = true ∧
      (∃ f, DocumentFilter.ofSettings [] { copied with outputDir := "out".toList } = .ok f) ∧
      (⟨[], { copied with outputDir := "out".toList }⟩ : Project).redirect [] =
        (.error (.invalid [Settings.noOutputDir]),
          ⟨[], { copied with outputDir := "out".toList }⟩) ∧
      DocumentFilter.ofSettings [] unclosed =
        .error ⟨Settings.excludeField, "[old".toList, .unclosedClass⟩ ∧
      unclosed.Names ⟨Settings.excludeField, "[old".toList, .unclosedClass⟩ := by
  have made : ofSettings [] copied = .ok ⟨[], copied⟩ := by rfl
  have ran : (⟨[], copied⟩ : Project).redirectAll [Path.ofText "out".toList, []] =
      ([.ok (), .error (.invalid [Settings.noOutputDir])],
        ⟨[], { copied with outputDir := "out".toList }⟩) := by rfl
  have refused : (⟨[], { copied with outputDir := "out".toList }⟩ : Project).redirect [] =
      (.error (.invalid [Settings.noOutputDir]),
        ⟨[], { copied with outputDir := "out".toList }⟩) := by rfl
  have failed : DocumentFilter.ofSettings [] unclosed =
      .error ⟨Settings.excludeField, "[old".toList, .unclosedClass⟩ := by rfl
  obtain ⟨-, valid, chosen, -, asked, named⟩ := settings_stay_usable (.inl ⟨copied, made⟩) ran
  exact ⟨made, ran, valid, chosen [], refused, failed, named unclosed [] _ failed⟩

end Project

end Phrasebook
