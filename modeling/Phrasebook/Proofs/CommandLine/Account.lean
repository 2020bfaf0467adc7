import Mathlib.Data.List.Induction
import Phrasebook.CommandLine.Run
import Phrasebook.Proofs.Dictionary
import Phrasebook.Proofs.Outcome

/-! The account of a run. It ends in one way for every document: its file is planned or written,
could not be written, is refused because an earlier document has its name, or there is none. The
counts follow these endings, and a run succeeds when every document was accepted or skipped. A file
that could not be written is counted as generated and as failed. -/
namespace Phrasebook.CommandLine

open Accessors (GeneratedFile DocumentResult)

/-- How a run ends for a document. -/
inductive Ending where
  | planned (file : GeneratedFile)
  | written (file : GeneratedFile)
  | unwritten (file : GeneratedFile) (error : Accessors.Error)
  | clash (file : GeneratedFile)
  | skipped
  | failed

namespace Ending

@[simp] def isAccepted : Ending → Bool
  | planned _ | written _ => true
  | unwritten .. | clash _ | skipped | failed => false

@[simp] def isUnwritten : Ending → Bool
  | unwritten .. => true
  | planned _ | written _ | clash _ | skipped | failed => false

@[simp] def isSkipped : Ending → Bool
  | skipped => true
  | planned _ | written _ | unwritten .. | clash _ | failed => false

/-- There is no file, or its name belongs to an earlier document. -/
@[simp] def isRefused : Ending → Bool
  | clash _ | failed => true
  | planned _ | written _ | unwritten .. | skipped => false

theorem countP_kinds (endings : List Ending) :
    endings.countP isAccepted + endings.countP isUnwritten + endings.countP isSkipped +
      endings.countP isRefused = endings.length := by
  induction endings with
  | nil => rfl
  | cons e rest ih =>
      simp only [List.countP_cons, List.length_cons]
      cases e <;> simp <;> omega

end Ending

/-- Counts a document by how the run ended for it. -/
def Counts.add (c : Counts) : Ending → Counts
  | .planned _ | .written _ => { c with generated := c.generated + 1 }
  | .unwritten .. => { c with generated := c.generated + 1, failed := c.failed + 1 }
  | .skipped => { c with skipped := c.skipped + 1 }
  | .clash _ | .failed => { c with failed := c.failed + 1 }

def tally (endings : List Ending) : Counts := endings.foldl Counts.add ⟨0, 0, 0⟩

theorem tally_concat (endings : List Ending) (e : Ending) :
    tally (endings ++ [e]) = (tally endings).add e := by
  rw [tally, List.foldl_append]
  rfl

theorem tally_eq (endings : List Ending) :
    tally endings = ⟨endings.countP Ending.isAccepted + endings.countP Ending.isUnwritten,
      endings.countP Ending.isSkipped,
      endings.countP Ending.isRefused + endings.countP Ending.isUnwritten⟩ := by
  induction endings using List.reverseRecOn with
  | nil => rfl
  | append_singleton endings e ih =>
      rw [tally_concat, ih]
      cases e <;> simp [Counts.add] <;> omega

def fileName? : Accessors.Outcome → Option Text
  | .generated file => some file.fileName
  | .skipped | .failed _ => none

section Course

variable (writing : Writing) (check : Bool) (outDir : Path)

/-- How a run ends for a document when the names of some files are taken, and the files then. -/
def endingOf (files : FileSystem) (taken : List Text) : Accessors.Outcome → Ending × FileSystem
  | .skipped => (.skipped, files)
  | .failed _ => (.failed, files)
  | .generated file =>
    if taken.contains file.fileName then (.clash file, files)
    else if check then (.planned file, files)
    else
      match writing files file outDir with
      | (files, .ok _) => (.written file, files)
      | (files, .error e) => (.unwritten file e, files)

/-- How a run ends for one document after the other, and the files at last. -/
def course (files : FileSystem) (taken : List Text) :
    List Accessors.Outcome → List Ending × FileSystem
  | [] => ([], files)
  | o :: rest =>
    let (ending, files) := endingOf writing check outDir files taken o
    let (endings, files) := course files ((fileName? o).toList ++ taken) rest
    (ending :: endings, files)

variable {check} {files : FileSystem} {taken : List Text} {file : GeneratedFile}

theorem endingOf_clash (clash : file.fileName ∈ taken) :
    endingOf writing check outDir files taken (.generated file) = (.clash file, files) :=
  if_pos (List.contains_iff_mem.mpr clash)

theorem endingOf_planned (free : file.fileName ∉ taken) :
    endingOf writing true outDir files taken (.generated file) = (.planned file, files) :=
  if_neg (mt List.contains_iff_mem.mp free)

theorem endingOf_free (free : file.fileName ∉ taken) :
    endingOf writing false outDir files taken (.generated file) =
      match writing files file outDir with
      | (files, .ok _) => (.written file, files)
      | (files, .error e) => (.unwritten file e, files) :=
  if_neg (mt List.contains_iff_mem.mp free)

end Course

/-- A progress in which some names are taken and the run has ended so for the documents before. -/
structure Progress.At (p : Progress) (files : FileSystem) (taken : List Text)
    (endings : List Ending) : Prop where
  files : p.files = files
  claimed : ∀ name, (∃ document, p.claimed.find? name = some document) ↔ name ∈ taken
  counts : p.counts = tally endings
  unwritten : ∀ e, Event.unwritten e ∈ p.events ↔ ∃ file, Ending.unwritten file e ∈ endings

namespace Progress.At

variable {p : Progress} {files : FileSystem} {taken : List Text} {endings : List Ending}

theorem start (files : FileSystem) : (Progress.start files).At files [] [] := by
  refine ⟨rfl, fun name => ?_, rfl, fun e => ?_⟩
  · simp [Progress.start, Dictionary.find?]
  · simp [Progress.start]

theorem claimed_claim (h : p.At files taken endings) (file : GeneratedFile) (name : Text) :
    (∃ document, (p.claim file).claimed.find? name = some document) ↔
      name ∈ file.fileName :: taken := by
  rw [claim, Dictionary.find?_insert]
  by_cases same : name = file.fileName <;> simp [same, h.claimed]

theorem step (h : p.At files taken endings) (writing : Writing) (check : Bool) (outDir : Path)
    (r : DocumentResult) :
    (p.step writing check outDir r).At (endingOf writing check outDir files taken r.outcome).2
      ((fileName? r.outcome).toList ++ taken)
      (endings ++ [(endingOf writing check outDir files taken r.outcome).1]) := by
  have claimed := h.claimed_claim
  obtain ⟨rfl, named, counts, unwritten⟩ := h
  unfold Progress.step
  cases r.outcome with
  | skipped =>
      refine ⟨rfl, named, ?_, by simpa [skip, endingOf] using unwritten⟩
      rw [tally_concat, ← counts]
      rfl
  | failed e =>
      refine ⟨rfl, named, ?_, by simpa [fail, tell, endingOf] using unwritten⟩
      rw [tally_concat, ← counts]
      rfl
  | generated file =>
      simp only [accept, fileName?]
      cases found : p.claimed.find? file.fileName with
      | some previous =>
          have here : file.fileName ∈ taken := (named file.fileName).mp ⟨previous, found⟩
          rw [endingOf_clash writing outDir here]
          refine ⟨rfl, fun name => (named name).trans ?_, ?_, by simpa [fail, tell] using unwritten⟩
          · refine ⟨List.mem_cons_of_mem _, fun there => ?_⟩
            rcases List.mem_cons.mp there with rfl | old
            · exact here
            · exact old
          · rw [tally_concat, ← counts]
            rfl
      | none =>
          have free : file.fileName ∉ taken := by
            rw [← named, found]
            simp
          cases check with
          | true =>
            rw [endingOf_planned writing outDir free]
            refine ⟨rfl, claimed file, ?_, by simpa [tell, claim] using unwritten⟩
            rw [tally_concat, ← counts]
            rfl
          | false =>
            -- The name stays claimed and the file counted whatever becomes of the writing.
            have kept : (p.claim file).files = p.files := rfl
            rw [endingOf_free writing outDir free]
            dsimp only
            rw [if_neg Bool.false_ne_true, Progress.write, kept]
            rcases writing p.files file outDir with ⟨files, e | path⟩
            · refine ⟨rfl, claimed file, ?_, ?_⟩
              · rw [tally_concat, ← counts]
                rfl
              · simp [fail, tell, claim, unwritten, exists_or]
            · refine ⟨rfl, claimed file, ?_, by simpa [tell, claim] using unwritten⟩
              rw [tally_concat, ← counts]
              rfl

theorem run (h : p.At files taken endings) (writing : Writing) (check : Bool) (outDir : Path)
    (results : List DocumentResult) :
    ∃ taken', (results.foldl (Progress.step writing check outDir) p).At
      (course writing check outDir files taken (results.map (·.outcome))).2 taken'
      (endings ++ (course writing check outDir files taken (results.map (·.outcome))).1) := by
  -- The progress after a document is again one to start from, by `step`.
  induction results generalizing p files taken endings with
  | nil =>
      refine ⟨taken, ?_⟩
      rw [List.map_nil, course, List.append_nil]
      exact h
  | cons r rest ih =>
      obtain ⟨taken', after⟩ := ih (h.step writing check outDir r)
      refine ⟨taken', ?_⟩
      rw [List.append_assoc] at after
      exact after

end Progress.At

/-- What a run may come to for a document with an outcome, after documents with such outcomes. -/
inductive Fits (check : Bool) (earlier : List Accessors.Outcome) :
    Accessors.Outcome → Ending → Prop where
  | skipped : Fits check earlier .skipped .skipped
  | failed (e : Accessors.Error) : Fits check earlier (.failed e) .failed
  | clash (file : GeneratedFile) (taken : ∃ o ∈ earlier, fileName? o = some file.fileName) :
    Fits check earlier (.generated file) (.clash file)
  | planned (file : GeneratedFile) (free : ∀ o ∈ earlier, fileName? o ≠ some file.fileName)
    (checked : check = true) : Fits check earlier (.generated file) (.planned file)
  | written (file : GeneratedFile) (free : ∀ o ∈ earlier, fileName? o ≠ some file.fileName)
    (unchecked : check = false) : Fits check earlier (.generated file) (.written file)
  | unwritten (file : GeneratedFile) (e : Accessors.Error)
    (free : ∀ o ∈ earlier, fileName? o ≠ some file.fileName) (unchecked : check = false) :
    Fits check earlier (.generated file) (.unwritten file e)

section Course

variable (writing : Writing) (check : Bool) (outDir : Path)

theorem length_course (files : FileSystem) (taken : List Text) (outcomes : List Accessors.Outcome) :
    (course writing check outDir files taken outcomes).1.length = outcomes.length := by
  induction outcomes generalizing files taken with
  | nil => rfl
  | cons o rest ih => simp [course, ih]

theorem fits_endingOf (files : FileSystem) {taken : List Text} {earlier : List Accessors.Outcome}
    (named : ∀ name, name ∈ taken ↔ ∃ o ∈ earlier, fileName? o = some name)
    (o : Accessors.Outcome) :
    Fits check earlier o (endingOf writing check outDir files taken o).1 := by
  cases o with
  | skipped => exact .skipped
  | failed e => exact .failed e
  | generated file =>
      by_cases clash : file.fileName ∈ taken
      · rw [endingOf_clash writing outDir clash]
        exact .clash file ((named _).mp clash)
      · have free : ∀ o ∈ earlier, fileName? o ≠ some file.fileName :=
          fun o ho same => clash ((named _).mpr ⟨o, ho, same⟩)
        cases check with
        | true =>
          rw [endingOf_planned writing outDir clash]
          exact .planned file free rfl
        | false =>
          rw [endingOf_free writing outDir clash]
          rcases writing files file outDir with ⟨_, e | path⟩
          · exact .unwritten file e free rfl
          · exact .written file free rfl

theorem named_cons {taken : List Text} {earlier : List Accessors.Outcome}
    (named : ∀ name, name ∈ taken ↔ ∃ o ∈ earlier, fileName? o = some name)
    (o : Accessors.Outcome) (name : Text) :
    name ∈ (fileName? o).toList ++ taken ↔ ∃ o' ∈ earlier ++ [o], fileName? o' = some name := by
  simp [named, or_and_right, exists_or, or_comm]

theorem fits_course (files : FileSystem) {taken : List Text} {earlier : List Accessors.Outcome}
    (named : ∀ name, name ∈ taken ↔ ∃ o ∈ earlier, fileName? o = some name)
    (outcomes : List Accessors.Outcome) {i : Nat} {o : Accessors.Outcome}
    (h : outcomes[i]? = some o) :
    ∃ ending, (course writing check outDir files taken outcomes).1[i]? = some ending ∧
      Fits check (earlier ++ outcomes.take i) o ending := by
  induction outcomes generalizing files taken earlier i with
  | nil => cases h
  | cons first rest ih =>
      cases i with
      | zero =>
          cases h
          refine ⟨_, rfl, ?_⟩
          rw [List.take_zero, List.append_nil]
          exact fits_endingOf writing check outDir files named o
      | succ i =>
          obtain ⟨ending, there, fits⟩ := ih _ (named_cons named first) h
          refine ⟨ending, there, ?_⟩
          rw [List.append_assoc] at fits
          exact fits

end Course

/-- What the account of a run says at its end, if it has come so far. -/
def Outcome.counts? (o : Outcome) : Option Counts :=
  match o.events.getLast? with
  | some (.finished counts) => some counts
  | _ => none

/-- A run with these arguments goes through these documents of this project. -/
structure Reaches (files : FileSystem) (a : Arguments) (p : Project) (documents : List Path) :
    Prop where
  project : project files a = .ok p
  documents : Workspace.findDocuments files p.root p.settings = .ok documents

/-- What a document comes to by itself. -/
def alone (files : FileSystem) (p : Project) (path : Path) : Accessors.Outcome :=
  Accessors.outcomeAt files p.documentBase p.settings.options path

/-- How a run ends for each document. -/
def endings (writing : Writing) (files : FileSystem) (a : Arguments) (p : Project)
    (documents : List Path) : List Ending :=
  (course writing a.check p.outputDir files [] (documents.map (alone files p))).1

theorem length_endings (writing : Writing) (files : FileSystem) (a : Arguments) (p : Project)
    (documents : List Path) : (endings writing files a p documents).length = documents.length := by
  rw [endings, length_course, List.length_map]

section Reaches

variable {files : FileSystem} {a : Arguments} {p : Project} {documents : List Path}

/-- What a run shows is told by how it ends for each document. -/
theorem Reaches.runWith (reached : Reaches files a p documents) (writing : Writing) :
    (runWith writing files a).counts? = some (tally (endings writing files a p documents)) ∧
      (runWith writing files a).exitCode =
        (if (tally (endings writing files a p documents)).failed = 0 then 0 else 1) ∧
      (runWith writing files a).files =
        (course writing a.check p.outputDir files [] (documents.map (alone files p))).2 ∧
      ∀ e, Event.unwritten e ∈ (runWith writing files a).events ↔
        ∃ file, Ending.unwritten file e ∈ endings writing files a p documents := by
  obtain ⟨taken, account⟩ := (Progress.At.start files).run writing a.check p.outputDir
    (Accessors.generateBatch files p.documentBase p.settings.options documents)
  rw [Accessors.generateBatch, List.map_map] at account
  rw [CommandLine.runWith, reached.project, Except.bind, generate, reached.documents]
  dsimp only
  rw [Accessors.generateBatch]
  generalize List.foldl _ _ _ = progress at account ⊢
  refine ⟨?_, ?_, account.files, fun e => ?_⟩
  · rw [Outcome.counts?, List.getLast?_concat]
    exact congrArg some account.counts
  · exact congrArg (fun counts : Counts => if counts.failed = 0 then (0 : UInt8) else 1)
      account.counts
  · rw [List.mem_append, account.unwritten]
    simp [endings]
    rfl

theorem fits_endings (writing : Writing) (files : FileSystem) (a : Arguments) (p : Project) {i : Nat}
    {path : Path} (h : documents[i]? = some path) :
    ∃ ending, (endings writing files a p documents)[i]? = some ending ∧
      Fits a.check ((documents.take i).map (alone files p)) (alone files p path) ending := by
  have at? : (documents.map (alone files p))[i]? = some (alone files p path) := by
    rw [List.getElem?_map, h, Option.map_some]
  have named : ∀ name, name ∈ ([] : List Text) ↔
      ∃ o ∈ ([] : List Accessors.Outcome), fileName? o = some name := by simp
  obtain ⟨ending, there, fits⟩ :=
    fits_course writing a.check p.outputDir files named (documents.map (alone files p)) at?
  refine ⟨ending, there, ?_⟩
  rw [List.nil_append, ← List.map_take] at fits
  exact fits

theorem isUnwritten_of_check (writing : Writing) (checked : a.check = true) {ending : Ending}
    (h : ending ∈ endings writing files a p documents) : ending.isUnwritten = false := by
  obtain ⟨i, at?⟩ := List.mem_iff_getElem?.mp h
  have inside : i < documents.length := by
    rw [← length_endings writing files a p documents]
    exact (List.getElem?_eq_some_iff.mp at?).1
  obtain ⟨_, there, fits⟩ := fits_endings writing files a p (List.getElem?_eq_getElem inside)
  cases at?.symm.trans there
  rw [checked] at fits
  generalize alone files p documents[i] = o at fits
  cases fits with
  | unwritten file e free unchecked => cases unchecked
  | _ => rfl

theorem code_eq_zero_iff (failed : Nat) :
    (if failed = 0 then 0 else 1 : UInt8) = 0 ↔ failed = 0 := by
  by_cases h : failed = 0 <;> simp [h]

/-- Every document is accounted for by how the run ends for it. A file that could not be written
counts as generated and as failed; only then do the counts add up to more than the documents, and
are more files generated than were accepted. The run succeeds when every document was accepted or
skipped. -/
theorem counts_follow_endings (writing : Writing) (reached : Reaches files a p documents) :
    let all := endings writing files a p documents
    all.length = documents.length ∧
    (∀ i path, documents[i]? = some path → ∃ ending, all[i]? = some ending ∧
      Fits a.check ((documents.take i).map (alone files p)) (alone files p path) ending) ∧
    (∀ e, Event.unwritten e ∈ (CommandLine.runWith writing files a).events ↔
      ∃ file, Ending.unwritten file e ∈ all) ∧
    (a.check = true → ∀ ending ∈ all, ending.isUnwritten = false) ∧
    ((CommandLine.runWith writing files a).exitCode = 0 ↔
      ∀ ending ∈ all, ending.isAccepted ∨ ending.isSkipped) ∧
    ∃ counts, (CommandLine.runWith writing files a).counts? = some counts ∧
      counts.generated = all.countP Ending.isAccepted + all.countP Ending.isUnwritten ∧
      counts.skipped = all.countP Ending.isSkipped ∧
      counts.failed = all.countP Ending.isRefused + all.countP Ending.isUnwritten ∧
      counts.generated + counts.skipped + counts.failed =
        documents.length + all.countP Ending.isUnwritten ∧
      (counts.generated + counts.skipped + counts.failed = documents.length ∧
          counts.generated = all.countP Ending.isAccepted ↔
        ∀ ending ∈ all, ending.isUnwritten = false) := by
  intro all
  obtain ⟨told, code, -, unwritten⟩ := reached.runWith writing
  have named : endings writing files a p documents = all := rfl
  rw [named, tally_eq] at told code
  have every : all.length = documents.length := length_endings writing files a p documents
  have kinds := Ending.countP_kinds all
  have none_unwritten : all.countP Ending.isUnwritten = 0 ↔
      ∀ ending ∈ all, ending.isUnwritten = false := by
    simp [List.countP_eq_zero]
  refine ⟨every, fun i path h => fits_endings writing files a p h, unwritten,
    fun checked ending h => isUnwritten_of_check writing checked h, ?_, _, told, rfl, rfl, rfl,
    ?_, ?_⟩
  · rw [code, code_eq_zero_iff, Nat.add_eq_zero_iff, List.countP_eq_zero, List.countP_eq_zero,
      ← forall₂_and]
    exact forall₂_congr fun ending _ => by cases ending <;> simp
  · dsimp only
    omega
  · rw [← none_unwritten]
    dsimp only
    omega

end Reaches

deriving instance DecidableEq for Project

def encoded (s : String) : Bytes := Utf8.encode s.toList

def greetingText (name : String) : Text :=
  ("[echoes_config]\ngenerated_class_name = '" ++ name ++ "'\ngenerated_namespace = 'App'\n" ++
    "[translations]\nhi = 'Hello'\n").toList

/-- Two documents, and a directory where the file of the first would be written. -/
def blocked : FileSystem :=
  .ofTree (.directory [(encoded "app", .directory [
    (encoded "hello.toml", .file (Utf8.encode (greetingText "Hello"))),
    (encoded "src", .directory [(encoded "generated", .directory [(encoded "hello.rs", .empty)])]),
    (encoded "world.toml", .file (Utf8.encode (greetingText "World")))])])

def inApp : Arguments := ⟨encoded "app", none, false⟩

def app : Project := ⟨encoded "app", .default⟩

def greetings : List Path := [encoded "app/hello.toml", encoded "app/world.toml"]

theorem blocked_reaches : Reaches blocked inApp app greetings where
  project := Outcome.eq_ok_of_toOption (by decide +kernel)
  documents := Outcome.eq_ok_of_toOption (by decide +kernel)

theorem blocked_run :
    (endings Accessors.write blocked inApp app greetings).countP Ending.isAccepted = 1 ∧
      (endings Accessors.write blocked inApp app greetings).countP Ending.isUnwritten = 1 ∧
      (endings Accessors.write blocked inApp app greetings).countP Ending.isSkipped = 0 ∧
      (endings Accessors.write blocked inApp app greetings).countP Ending.isRefused = 0 ∧
      (run blocked inApp).counts? = some ⟨2, 0, 1⟩ := by
  decide +kernel

/-- The second document is written although the first is not, which the account and the exit code
tell. -/
theorem counts_follow_endings_blocked :
    Reaches blocked inApp app greetings ∧
      (runWith Accessors.write blocked inApp).exitCode ≠ 0 ∧
      ∃ counts, (runWith Accessors.write blocked inApp).counts? = some counts ∧
        counts.generated = 1 + 1 ∧ counts.skipped = 0 ∧ counts.failed = 0 + 1 := by
  obtain ⟨-, -, -, -, code, counts, told, generated, skipped, failed, -⟩ :=
    counts_follow_endings Accessors.write blocked_reaches
  obtain ⟨accepted, unwritten, passed, refused, -⟩ := blocked_run
  rw [accepted, unwritten] at generated
  rw [passed] at skipped
  rw [refused, unwritten] at failed
  refine ⟨blocked_reaches, fun success => ?_, counts, told, generated, skipped, failed⟩
  obtain ⟨ending, there, lost⟩ :=
    List.countP_pos_iff.mp (Nat.lt_of_lt_of_eq Nat.one_pos unwritten.symm)
  have clean := code.mp success ending there
  cases ending <;> simp at clean lost

/-- The counts of two documents add up to three: the one that could not be written is counted
twice, and as generated although only the other was written. -/
theorem unwritten_counted_twice :
    Reaches blocked inApp app greetings ∧
      (run blocked inApp).counts? = some ⟨2, 0, 1⟩ ∧ greetings.length = 2 ∧
      (endings Accessors.write blocked inApp app greetings).countP Ending.isAccepted = 1 := by
  obtain ⟨accepted, -, -, -, told⟩ := blocked_run
  exact ⟨blocked_reaches, told, rfl, accepted⟩

end Phrasebook.CommandLine
