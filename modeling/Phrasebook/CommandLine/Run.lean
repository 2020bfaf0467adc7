import Phrasebook.CommandLine.Arguments
import Phrasebook.CommandLine.Event

/-!
A run of the generator: the documents of a project are found, their sources generated and, unless
the run only checks, written. Every document is counted, and what happened is told by events. A file
name is claimed by the first document that generates it; later documents that would generate the
same file fail.
-/

namespace Phrasebook.CommandLine

abbrev Writing :=
  FileSystem → Accessors.GeneratedFile → Path → FileSystem × Except Accessors.Error Path

/-- How far a run has come. File names are claimed by the documents they were generated from. -/
structure Progress where
  files : FileSystem
  counts : Counts
  claimed : Dictionary Text
  events : List Event

namespace Progress

def start (files : FileSystem) : Progress := ⟨files, ⟨0, 0, 0⟩, [], []⟩

def tell (p : Progress) (e : Event) : Progress := { p with events := p.events ++ [e] }

def fail (p : Progress) (e : Event) : Progress :=
  { p with counts := { p.counts with failed := p.counts.failed + 1 } }.tell e

def skip (p : Progress) : Progress :=
  { p with counts := { p.counts with skipped := p.counts.skipped + 1 } }

def claim (p : Progress) (file : Accessors.GeneratedFile) : Progress :=
  { p with
    counts := { p.counts with generated := p.counts.generated + 1 }
    claimed := p.claimed.insert file.fileName file.relativePath }

/-- Writes a file; that it could not be written is counted as well. -/
def write (p : Progress) (writing : Writing) (outDir : Path) (file : Accessors.GeneratedFile) :
    Progress :=
  match writing p.files file outDir with
  | (files, .ok path) => { p with files }.tell (.written file.relativePath path)
  | (files, .error e) => { p with files }.fail (.unwritten e)

def accept (p : Progress) (writing : Writing) (check : Bool) (outDir : Path)
    (file : Accessors.GeneratedFile) : Progress :=
  match p.claimed.find? file.fileName with
  | some previous => p.fail (.clash previous file.relativePath file.fileName)
  | none =>
    let p := p.claim file
    if check then p.tell (.planned file.relativePath (Path.join outDir (Path.ofText file.fileName)))
    else p.write writing outDir file

def step (writing : Writing) (check : Bool) (outDir : Path) (p : Progress)
    (result : Accessors.DocumentResult) : Progress :=
  match result.outcome with
  | .generated file => p.accept writing check outDir file
  | .skipped => p.skip
  | .failed e => p.fail (.ungenerated result.path e)

end Progress

def project (files : FileSystem) (a : Arguments) : Except Failure Project :=
  match Project.load files a.root with
  | .error e => .error (.project e)
  | .ok p =>
    match a.out with
    | none => .ok p
    | some out =>
      match p.withOutputDir out with
      | .error e => .error (.project e)
      | .ok p => .ok p

def generate (writing : Writing) (check : Bool) (files : FileSystem) (p : Project) :
    Except Failure Progress :=
  match Workspace.findDocuments files p.root p.settings with
  | .error e => .error (.workspace e)
  | .ok documents =>
    let results :=
      Accessors.generateBatch files p.documentBase p.settings.options documents
    .ok (results.foldl (Progress.step writing check p.outputDir) (.start files))

structure Outcome where
  exitCode : UInt8
  output : Text
  events : List Event
  files : FileSystem

def runWith (writing : Writing) (files : FileSystem) (a : Arguments) : Outcome :=
  match (project files a).bind (generate writing a.check files) with
  | .error failure => ⟨1, [], [.refused failure], files⟩
  | .ok p =>
    ⟨if p.counts.failed = 0 then 0 else 1, [], p.events ++ [.finished p.counts], p.files⟩

def run (files : FileSystem) (a : Arguments) : Outcome := runWith Accessors.write files a

def versionText : Text := "echoes-gen 0.1.0\n".toList

def helpText : Text :=
  ("Generate typed accessors for TOML translation documents\n\n" ++
    "Usage: echoes-gen [OPTIONS]\n\n" ++
    "Options:\n" ++
    "      --root <ROOT>  Project root holding `.echoes.json` and the documents [default: .]\n" ++
    "      --out <OUT>    Output directory, overriding `outputDir`\n" ++
    "      --check        Report what would be generated without writing files\n" ++
    "  -h, --help         Print help\n" ++
    "  -V, --version      Print version\n").toList

def respond (files : FileSystem) (arguments : List Text) : Outcome :=
  match read arguments with
  | .run a => run files a
  | .help => ⟨0, helpText, [], files⟩
  | .version => ⟨0, versionText, [], files⟩
  | .malformed => ⟨2, [], [], files⟩

end Phrasebook.CommandLine
