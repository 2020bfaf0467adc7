import Phrasebook.Proofs.Accessors.Written
import Phrasebook.Proofs.CommandLine.Account

/-! What a run writes. Of the documents that generate a file, the first one of each file name is
written, whatever the others come to; the files and the directories made for them are all that
changes. A run that only checks changes nothing and gives the same account. -/
namespace Phrasebook.CommandLine

open Accessors (GeneratedFile Written)

/-- The files of documents with such outcomes, the first of each name that is not taken. -/
def firsts (taken : List Text) : List Accessors.Outcome → List GeneratedFile
  | [] => []
  | .generated file :: rest =>
    if taken.contains file.fileName then firsts taken rest
    else file :: firsts (file.fileName :: taken) rest
  | .skipped :: rest | .failed _ :: rest => firsts taken rest

section Firsts

variable {taken taken' : List Text} {outcomes : List Accessors.Outcome} {file : GeneratedFile}

theorem firsts_of_taken (clash : file.fileName ∈ taken) :
    firsts taken (.generated file :: outcomes) = firsts taken outcomes :=
  if_pos (List.contains_iff_mem.mpr clash)

theorem firsts_of_free (free : file.fileName ∉ taken) :
    firsts taken (.generated file :: outcomes) =
      file :: firsts (file.fileName :: taken) outcomes :=
  if_neg (mt List.contains_iff_mem.mp free)

theorem firsts_congr (same : ∀ name, name ∈ taken ↔ name ∈ taken') :
    firsts taken outcomes = firsts taken' outcomes := by
  induction outcomes generalizing taken taken' with
  | nil => rfl
  | cons o rest ih =>
      cases o with
      | skipped => exact ih same
      | failed e => exact ih same
      | generated file =>
          have same' : ∀ name, name ∈ file.fileName :: taken ↔ name ∈ file.fileName :: taken' := by
            intro name
            rw [List.mem_cons, List.mem_cons, same]
          by_cases clash : file.fileName ∈ taken
          · rw [firsts_of_taken clash, firsts_of_taken ((same _).mp clash), ih same]
          · rw [firsts_of_free clash, firsts_of_free (mt (same _).mpr clash), ih same']

theorem exists_first_cons {α : Type} {P : α → Prop} {a b : α} {rest : List α} :
    (∃ pre post, b :: rest = pre ++ a :: post ∧ ∀ x ∈ pre, P x) ↔
      b = a ∨ P b ∧ ∃ pre post, rest = pre ++ a :: post ∧ ∀ x ∈ pre, P x := by
  constructor
  · rintro ⟨pre, post, cut, before⟩
    cases pre with
    | nil => exact .inl (List.cons.inj cut).1
    | cons x pre =>
        obtain ⟨rfl, later⟩ := List.cons.inj cut
        rw [List.forall_mem_cons] at before
        exact .inr ⟨before.1, pre, post, later, before.2⟩
  · rintro (rfl | ⟨here, pre, post, rfl, before⟩)
    · exact ⟨[], rest, rfl, by simp⟩
    · exact ⟨b :: pre, post, rfl, List.forall_mem_cons.mpr ⟨here, before⟩⟩

theorem mem_firsts :
    file ∈ firsts taken outcomes ↔ file.fileName ∉ taken ∧
      ∃ pre post, outcomes = pre ++ .generated file :: post ∧
        ∀ o ∈ pre, fileName? o ≠ some file.fileName := by
  induction outcomes generalizing taken with
  | nil => simp [firsts]
  | cons o rest ih =>
      rw [exists_first_cons]
      cases o with
      | skipped => simp [firsts, ih, fileName?]
      | failed e => simp [firsts, ih, fileName?]
      | generated other =>
          by_cases clash : other.fileName ∈ taken
          · rw [firsts_of_taken clash, ih]
            simp only [Accessors.Outcome.generated.injEq, fileName?]
            grind
          · rw [firsts_of_free clash, List.mem_cons, ih]
            simp only [Accessors.Outcome.generated.injEq, fileName?]
            grind

theorem nodup_firsts (taken : List Text) (outcomes : List Accessors.Outcome) :
    ((firsts taken outcomes).map (·.fileName)).Nodup := by
  induction outcomes generalizing taken with
  | nil => exact List.nodup_nil
  | cons o rest ih =>
      cases o with
      | skipped => exact ih taken
      | failed e => exact ih taken
      | generated file =>
          by_cases clash : file.fileName ∈ taken
          · rw [firsts_of_taken clash]
            exact ih taken
          · rw [firsts_of_free clash, List.map_cons, List.nodup_cons]
            refine ⟨fun again => ?_, ih _⟩
            obtain ⟨other, there, same⟩ := List.mem_map.mp again
            exact (mem_firsts.mp there).1 (same ▸ List.mem_cons_self)

theorem firsts_of_clash (clash : file.fileName ∈ taken) :
    firsts taken (.generated file :: outcomes) = firsts (file.fileName :: taken) outcomes := by
  rw [firsts_of_taken clash]
  refine firsts_congr fun name => ⟨List.mem_cons_of_mem _, fun there => ?_⟩
  rcases List.mem_cons.mp there with rfl | old
  · exact clash
  · exact old

/-- A document without a file of its own name counts for no other. -/
theorem firsts_remove {pre post : List Accessors.Outcome} {o : Accessors.Outcome}
    (refused : ∀ name, fileName? o = some name →
      name ∈ taken ∨ ∃ earlier ∈ pre, fileName? earlier = some name) :
    firsts taken (pre ++ o :: post) = firsts taken (pre ++ post) := by
  induction pre generalizing taken with
  | nil =>
      cases o with
      | skipped => rfl
      | failed e => rfl
      | generated file =>
          have there : file.fileName ∈ taken := by simpa using refused file.fileName rfl
          rw [List.nil_append, List.nil_append, firsts_of_taken there]
  | cons first pre ih =>
      have step : ∀ name, fileName? o = some name → fileName? first ≠ some name →
          name ∈ taken ∨ ∃ earlier ∈ pre, fileName? earlier = some name := by
        intro name named other
        simpa [other] using refused name named
      cases first with
      | skipped => exact ih fun name named => step name named nofun
      | failed e => exact ih fun name named => step name named nofun
      | generated file =>
          rw [List.cons_append, List.cons_append]
          by_cases clash : file.fileName ∈ taken
          · rw [firsts_of_taken clash, firsts_of_taken clash]
            refine ih fun name named => ?_
            by_cases same : file.fileName = name
            · exact .inl (same ▸ clash)
            · exact step name named fun h => same (Option.some.inj h)
          · rw [firsts_of_free clash, firsts_of_free clash, ih]
            intro name named
            by_cases same : file.fileName = name
            · exact .inl (same ▸ List.mem_cons_self)
            · refine (step name named fun h => same (Option.some.inj h)).imp_left ?_
              exact List.mem_cons_of_mem _

end Firsts

/-- What is planned is written when the run does not only check. -/
def Ending.commit : Ending → Ending
  | planned file => written file
  | e => e

theorem tally_commit (endings : List Ending) :
    tally (endings.map Ending.commit) = tally endings := by
  rw [tally, List.foldl_map, tally]
  congr
  funext counts e
  cases e <;> rfl

theorem isAccepted_comp_commit : Ending.isAccepted ∘ Ending.commit = Ending.isAccepted := by
  funext e
  cases e <;> rfl

section Course

variable (writing : Writing) (outDir : Path)

theorem course_cons (check : Bool) (files : FileSystem) (taken : List Text) (o : Accessors.Outcome)
    (rest : List Accessors.Outcome) :
    course writing check outDir files taken (o :: rest) =
      ((endingOf writing check outDir files taken o).1 ::
        (course writing check outDir (endingOf writing check outDir files taken o).2
          ((fileName? o).toList ++ taken) rest).1,
      (course writing check outDir (endingOf writing check outDir files taken o).2
        ((fileName? o).toList ++ taken) rest).2) := rfl

/-- A run that only checks ends the same whatever files there are, and leaves them as they are. -/
theorem endingOf_check (files files' : FileSystem) (taken : List Text) (o : Accessors.Outcome) :
    endingOf writing true outDir files taken o =
      ((endingOf writing true outDir files' taken o).1, files) := by
  cases o with
  | skipped => rfl
  | failed e => rfl
  | generated file =>
      by_cases clash : file.fileName ∈ taken
      · rw [endingOf_clash writing outDir clash, endingOf_clash writing outDir clash]
      · rw [endingOf_planned writing outDir clash, endingOf_planned writing outDir clash]

theorem course_check (files files' : FileSystem) (taken : List Text)
    (outcomes : List Accessors.Outcome) :
    course writing true outDir files taken outcomes =
      ((course writing true outDir files' taken outcomes).1, files) := by
  induction outcomes generalizing files files' taken with
  | nil => rfl
  | cons o rest ih =>
      rw [course_cons, course_cons, endingOf_check writing outDir files files' taken o]
      dsimp only
      rw [ih files (endingOf writing true outDir files' taken o).2]

theorem countP_course (files : FileSystem) (taken : List Text) (outcomes : List Accessors.Outcome) :
    (course writing true outDir files taken outcomes).1.countP Ending.isAccepted =
      (firsts taken outcomes).length := by
  induction outcomes generalizing files taken with
  | nil => rfl
  | cons o rest ih =>
      rw [course_cons, List.countP_cons, ih]
      cases o with
      | skipped => rfl
      | failed e => rfl
      | generated file =>
          by_cases clash : file.fileName ∈ taken
          · rw [endingOf_clash writing outDir clash, firsts_of_clash clash]
            rfl
          · rw [endingOf_planned writing outDir clash, firsts_of_free clash]
            rfl

variable {outDir}

theorem course_written {files : FileSystem} {taken : List Text} {outcomes : List Accessors.Outcome}
    (succeeds : ∀ file e,
      Ending.unwritten file e ∉ (course Accessors.write false outDir files taken outcomes).1) :
    Written outDir files (firsts taken outcomes)
        (course Accessors.write false outDir files taken outcomes).2 ∧
      (course Accessors.write false outDir files taken outcomes).1 =
        (course Accessors.write true outDir files taken outcomes).1.map Ending.commit := by
  induction outcomes generalizing files taken with
  | nil => exact ⟨.none, rfl⟩
  | cons o rest ih =>
      rw [course_cons] at succeeds
      obtain ⟨written, ends⟩ := ih fun file e later =>
        succeeds file e (List.mem_cons_of_mem _ later)
      rw [course_cons, course_cons, ends]
      cases o with
      | skipped => exact ⟨written, rfl⟩
      | failed e => exact ⟨written, rfl⟩
      | generated file =>
          by_cases clash : file.fileName ∈ taken
          · rw [endingOf_clash _ _ clash] at written ⊢
            rw [endingOf_clash _ _ clash, firsts_of_clash clash]
            exact ⟨written, rfl⟩
          · rw [endingOf_free _ _ clash] at succeeds written ⊢
            rw [endingOf_planned _ _ clash, firsts_of_free clash]
            rcases made : Accessors.write files file outDir with ⟨files', e | path⟩
            · rw [made] at succeeds
              exact (succeeds file e List.mem_cons_self).elim
            · rw [made] at written
              refine ⟨.next made written, ?_⟩
              rw [List.map_cons]
              dsimp only
              -- What was planned before the file was written is planned after it.
              rw [course_check Accessors.write outDir files' files]
              rfl

end Course

theorem Reaches.withCheck {files : FileSystem} {a : Arguments} {p : Project} {documents : List Path}
    (reached : Reaches files a p documents) (check : Bool) :
    Reaches files { a with check } p documents :=
  ⟨reached.project, reached.documents⟩

def outputs (files : FileSystem) (p : Project) (documents : List Path) : List GeneratedFile :=
  firsts [] (documents.map (alone files p))

section Outputs

variable {files : FileSystem} {p : Project} {documents : List Path}

/-- A file is written when it is generated from the first document with its name. -/
theorem mem_outputs {file : GeneratedFile} :
    file ∈ outputs files p documents ↔ ∃ pre path post, documents = pre ++ path :: post ∧
      alone files p path = .generated file ∧
      ∀ other ∈ pre, fileName? (alone files p other) ≠ some file.fileName := by
  rw [outputs, mem_firsts]
  constructor
  · rintro ⟨-, pre, post, cut, before⟩
    obtain ⟨pre, tail, rfl, rfl, later⟩ := List.map_eq_append_iff.mp cut
    obtain ⟨path, post, rfl, made, -⟩ := List.map_eq_cons_iff.mp later
    exact ⟨pre, path, post, rfl, made, fun other there => before _ (List.mem_map_of_mem there)⟩
  · rintro ⟨pre, path, post, rfl, made, before⟩
    refine ⟨List.not_mem_nil, pre.map (alone files p), post.map (alone files p), ?_, ?_⟩
    · rw [List.map_append, List.map_cons, made]
    · exact List.forall_mem_map.mpr before

theorem slash_not_mem_of_outputs {file : GeneratedFile} (h : file ∈ outputs files p documents) :
    '/' ∉ file.fileName := by
  obtain ⟨-, path, -, -, made, -⟩ := mem_outputs.mp h
  rw [alone, Accessors.outcomeAt] at made
  split at made
  · cases made
  split at made
  · cases made
  · cases made
  · rename_i generated
    cases made
    exact Accessors.slash_not_mem_fileName generated

/-- Without a document that gives no output, the others give the same. -/
theorem outputs_remove {pre post : List Path} {path : Path}
    (refused : ∀ name, fileName? (alone files p path) = some name →
      ∃ other ∈ pre, fileName? (alone files p other) = some name) :
    outputs files p (pre ++ path :: post) = outputs files p (pre ++ post) := by
  rw [outputs, outputs, List.map_append, List.map_append, List.map_cons, firsts_remove]
  intro name named
  obtain ⟨other, there, same⟩ := refused name named
  exact .inr ⟨_, List.mem_map_of_mem there, same⟩

variable {a : Arguments}

theorem Reaches.succeeds (reached : Reaches files a p documents)
    (written : (endings Accessors.write files a p documents).countP Ending.isUnwritten = 0) :
    ∀ e, Event.unwritten e ∉ (run files a).events := by
  intro e there
  obtain ⟨-, -, -, told⟩ := reached.runWith Accessors.write
  obtain ⟨file, lost⟩ := (told e).mp there
  exact List.countP_eq_zero.mp written _ lost rfl

theorem clash_of_named (reached : Reaches files a p documents) {pre post : List Path} {path : Path}
    (cut : documents = pre ++ path :: post) {other : Path} (earlier : other ∈ pre) {name : Text}
    (taken : fileName? (alone files p other) = some name)
    (named : fileName? (alone files p path) = some name) :
    (∃ file, (endings Accessors.write files a p documents)[pre.length]? = some (.clash file)) ∧
      (run files a).exitCode ≠ 0 := by
  have at? : documents[pre.length]? = some path := by simp [cut]
  obtain ⟨ending, there, fits⟩ := fits_endings Accessors.write files a p at?
  rw [cut, List.take_left] at fits
  have taken' : ¬ ∀ o ∈ pre.map (alone files p), fileName? o ≠ fileName? (alone files p path) :=
    fun free => free _ (List.mem_map_of_mem earlier) (taken.trans named.symm)
  have refused : ∃ file, ending = .clash file := by
    generalize alone files p path = o at fits named taken'
    cases fits with
    | skipped => cases named
    | failed e => cases named
    | clash file _ => exact ⟨file, rfl⟩
    | planned file free _ => exact (taken' free).elim
    | written file free _ => exact (taken' free).elim
    | unwritten file e free _ => exact (taken' free).elim
  obtain ⟨file, rfl⟩ := refused
  refine ⟨⟨file, there⟩, fun success => ?_⟩
  rw [run, (reached.runWith Accessors.write).2.1, code_eq_zero_iff, tally_eq, Nat.add_eq_zero_iff,
    List.countP_eq_zero] at success
  exact success.1 _ (List.mem_of_getElem? there) rfl

/-- A run that can write all its files ends as one that only checks, but that it writes them. -/
theorem endings_of_succeeds (reached : Reaches files a p documents)
    (succeeds : ∀ e, Event.unwritten e ∉ (run files { a with check := false }).events) :
    Written p.outputDir files (outputs files p documents)
        (run files { a with check := false }).files ∧
      endings Accessors.write files { a with check := false } p documents =
        (endings Accessors.write files { a with check := true } p documents).map Ending.commit := by
  obtain ⟨-, -, after, told⟩ := (reached.withCheck false).runWith Accessors.write
  have written : ∀ file e, Ending.unwritten file e ∉
      (course Accessors.write false p.outputDir files [] (documents.map (alone files p))).1 :=
    fun file e there => succeeds e ((told e).mpr ⟨file, there⟩)
  rw [run, after]
  exact course_written written

/-- Then every output counts as generated, and what was refused as failed. -/
theorem counts_of_succeeds (reached : Reaches files a p documents)
    (succeeds : ∀ e, Event.unwritten e ∉ (run files { a with check := false }).events) :
    (run files { a with check := false }).counts? = some ⟨(outputs files p documents).length,
      (endings Accessors.write files { a with check := false } p documents).countP Ending.isSkipped,
      (endings Accessors.write files { a with check := false } p documents).countP
        Ending.isRefused⟩ := by
  obtain ⟨counts, -, -, told⟩ := (reached.withCheck false).runWith Accessors.write
  have written : (endings Accessors.write files { a with check := false } p documents).countP
      Ending.isUnwritten = 0 := by
    refine List.countP_eq_zero.mpr fun ending there lost => ?_
    cases ending with
    | unwritten file e => exact succeeds e ((told e).mpr ⟨file, there⟩)
    | _ => cases lost
  have accepted : (endings Accessors.write files { a with check := false } p documents).countP
      Ending.isAccepted = (outputs files p documents).length := by
    rw [(endings_of_succeeds reached succeeds).2, List.countP_map, isAccepted_comp_commit]
    exact countP_course Accessors.write p.outputDir files [] _
  rw [run, counts, tally_eq, accepted, written, Nat.add_zero, Nat.add_zero]

/-- A run that only checks leaves the files alone, and tells what a run that can write tells. -/
theorem check_of_succeeds (reached : Reaches files a p documents)
    (succeeds : ∀ e, Event.unwritten e ∉ (run files { a with check := false }).events) :
    (run files { a with check := true }).files = files ∧
      (run files { a with check := true }).counts? = (run files { a with check := false }).counts? ∧
      (run files { a with check := true }).exitCode =
        (run files { a with check := false }).exitCode := by
  obtain ⟨counts, code, -, -⟩ := (reached.withCheck false).runWith Accessors.write
  obtain ⟨counts', code', kept, -⟩ := (reached.withCheck true).runWith Accessors.write
  rw [(endings_of_succeeds reached succeeds).2, tally_commit] at counts code
  refine ⟨?_, counts'.trans counts.symm, code'.trans code.symm⟩
  rw [run, kept, course_check Accessors.write p.outputDir files files]

/-- A run that can write all its files writes, for each file name, the first file of that name, as
the document gives it by itself, and nothing else. Where no output is a link in the output
directory, each has a place of its own, to which its path leads and where it can be read again.
Later documents with such a name are refused and make the run fail, and no document that gives no
output counts for the others. A run that only checks changes nothing and gives the same account. -/
theorem outputs_written_once (reached : Reaches files a p documents)
    (succeeds : ∀ e, Event.unwritten e ∉ (run files { a with check := false }).events) :
    let real := run files { a with check := false }
    let dry := run files { a with check := true }
    let outs := outputs files p documents
    let all := endings Accessors.write files { a with check := false } p documents
    Written p.outputDir files outs real.files ∧
    (outs.map (·.fileName)).Nodup ∧
    (∀ file, file ∈ outs ↔ ∃ pre path post, documents = pre ++ path :: post ∧
      alone files p path = .generated file ∧
      ∀ other ∈ pre, fileName? (alone files p other) ≠ some file.fileName) ∧
    (∃ spots, Accessors.Spots p.outputDir files outs real.files spots ∧
      ((∀ file ∈ outs, real.files.isLinkAt (file.path p.outputDir) = false) →
        spots.Nodup ∧
        List.Forall₂ (fun file spot => real.files.LeadsTo (file.path p.outputDir) spot)
          outs spots ∧
        ∀ file ∈ outs, real.files.readText (file.path p.outputDir) = .ok file.source)) ∧
    (∀ pre path post other name, documents = pre ++ path :: post → other ∈ pre →
      fileName? (alone files p other) = some name → fileName? (alone files p path) = some name →
      (∃ file, all[pre.length]? = some (.clash file)) ∧ real.exitCode ≠ 0) ∧
    (∀ pre path post, documents = pre ++ path :: post →
      (∀ name, fileName? (alone files p path) = some name →
        ∃ other ∈ pre, fileName? (alone files p other) = some name) →
      outputs files p (pre ++ post) = outs) ∧
    real.counts? =
      some ⟨outs.length, all.countP Ending.isSkipped, all.countP Ending.isRefused⟩ ∧
    dry.files = files ∧ dry.counts? = real.counts? ∧ dry.exitCode = real.exitCode := by
  intro real dry outs all
  obtain ⟨written, -⟩ := endings_of_succeeds reached succeeds
  obtain ⟨spots, placed⟩ := written.exists_spots
  have distinct : (outs.map (·.fileName)).Nodup := nodup_firsts [] _
  have whole : ∀ file ∈ outs, '/' ∉ file.fileName := fun file there => slash_not_mem_of_outputs there
  refine ⟨written, distinct, fun file => mem_outputs, ⟨spots, placed, fun unlinked => ?_⟩,
    fun pre path post other name cut earlier taken named => ?_,
    fun pre path post cut refused => ?_, counts_of_succeeds reached succeeds,
    check_of_succeeds reached succeeds⟩
  · have leads := placed.leadsTo unlinked
    exact ⟨Accessors.Spots.nodup leads whole distinct, leads,
      fun file there => placed.readText unlinked whole distinct there⟩
  · exact clash_of_named (reached.withCheck false) cut earlier taken named
  · exact (outputs_remove refused).symm.trans (congrArg (outputs files p) cut.symm)

end Outputs

/-- Two documents that generate files of one name. -/
def twins : FileSystem :=
  .ofTree (.directory [(encoded "app", .directory [
    (encoded "de", .directory [(encoded "hello.toml", .file (Utf8.encode (greetingText "Hallo")))]),
    (encoded "hello.toml", .file (Utf8.encode (greetingText "Hello")))])])

def twinGreetings : List Path := [encoded "app/de/hello.toml", encoded "app/hello.toml"]

theorem twins_reaches : Reaches twins inApp app twinGreetings where
  project := Outcome.eq_ok_of_toOption (by decide +kernel)
  documents := Outcome.eq_ok_of_toOption (by decide +kernel)

theorem twins_run :
    twinGreetings.map (fun path => fileName? (alone twins app path)) =
        [some "hello.rs".toList, some "hello.rs".toList] ∧
      (endings Accessors.write twins { inApp with check := false } app twinGreetings).countP
        Ending.isUnwritten = 0 ∧
      (run twins { inApp with check := false }).files.isLinkAt
        (Path.join app.outputDir (Path.ofText "hello.rs".toList)) = false := by
  decide +kernel

/-- The first one is written and can be read, and the second one is refused. -/
theorem outputs_written_once_twins :
    Reaches twins inApp app twinGreetings ∧
      (∀ e, Event.unwritten e ∉ (run twins { inApp with check := false }).events) ∧
      (∀ file ∈ outputs twins app twinGreetings,
        (run twins { inApp with check := false }).files.readText (file.path app.outputDir) =
          .ok file.source) ∧
      (run twins { inApp with check := false }).exitCode ≠ 0 ∧
      (run twins { inApp with check := true }).files = twins ∧
      (run twins { inApp with check := true }).exitCode ≠ 0 := by
  obtain ⟨names, kinds, noLink⟩ := twins_run
  have succeeds : ∀ e, Event.unwritten e ∉ (run twins { inApp with check := false }).events :=
    (twins_reaches.withCheck false).succeeds kinds
  simp only [twinGreetings, List.map_cons, List.cons.injEq] at names
  have unlinked : ∀ file ∈ outputs twins app twinGreetings,
      (run twins { inApp with check := false }).files.isLinkAt (file.path app.outputDir) =
        false := by
    intro file there
    obtain ⟨pre, path, post, cut, made, -⟩ := mem_outputs.mp there
    have name : fileName? (alone twins app path) = some "hello.rs".toList := by
      have inside : path ∈ twinGreetings := cut ▸ List.mem_append_right pre List.mem_cons_self
      rcases List.mem_pair.mp inside with rfl | rfl
      · exact names.1
      · exact names.2.1
    rw [made] at name
    rw [GeneratedFile.path, Option.some.inj name]
    exact noLink
  obtain ⟨-, -, -, ⟨spots, -, placed⟩, clash, -, -, kept, -, code⟩ :=
    outputs_written_once twins_reaches succeeds
  obtain ⟨-, -, read⟩ := placed unlinked
  have failed := (clash [encoded "app/de/hello.toml"] (encoded "app/hello.toml") []
    (encoded "app/de/hello.toml") "hello.rs".toList rfl (List.mem_singleton_self _)
    names.1 names.2.1).2
  exact ⟨twins_reaches, succeeds, read, failed, kept,
    fun success => failed (code.symm.trans success)⟩

/-- The file of the first document is a link to that of the second. -/
def linked : FileSystem :=
  .ofTree (.directory [(encoded "app", .directory [
    (encoded "hello.toml", .file (Utf8.encode (greetingText "Hello"))),
    (encoded "src", .directory [
      (encoded "generated", .directory [(encoded "hello.rs", .link (encoded "world.rs"))])]),
    (encoded "world.toml", .file (Utf8.encode (greetingText "World")))])])

theorem linked_reaches : Reaches linked inApp app greetings where
  project := Outcome.eq_ok_of_toOption (by decide +kernel)
  documents := Outcome.eq_ok_of_toOption (by decide +kernel)

theorem linked_run :
    (endings Accessors.write linked inApp app greetings).countP Ending.isUnwritten = 0 ∧
      (run linked inApp).counts? = some ⟨2, 0, 0⟩ ∧ (run linked inApp).exitCode = 0 ∧
      (outputs linked app greetings).length = 2 ∧
      ∀ hello ∈ (outputs linked app greetings)[0]?, ∀ world ∈ (outputs linked app greetings)[1]?,
        hello.source ≠ world.source ∧
          ((run linked inApp).files.readText (hello.path app.outputDir)).toOption =
            some world.source := by
  decide +kernel

/-- Both files are written, the second one over the first. -/
theorem linked_output_overwritten :
    Reaches linked inApp app greetings ∧
      (∀ e, Event.unwritten e ∉ (run linked inApp).events) ∧
      (run linked inApp).counts? = some ⟨2, 0, 0⟩ ∧ (run linked inApp).exitCode = 0 ∧
      ∃ hello world, outputs linked app greetings = [hello, world] ∧
        (run linked inApp).files.readText (hello.path app.outputDir) = .ok world.source ∧
        hello.source ≠ world.source := by
  obtain ⟨kinds, counts, code, two, read⟩ := linked_run
  obtain ⟨hello, world, both⟩ := List.length_eq_two.mp two
  rw [both] at read
  obtain ⟨differ, overwritten⟩ := read hello rfl world rfl
  exact ⟨linked_reaches, linked_reaches.succeeds kinds, counts, code, hello, world, both,
    Outcome.eq_ok_of_toOption overwritten, differ⟩

end Phrasebook.CommandLine
