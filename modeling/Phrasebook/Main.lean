import Phrasebook.CommandLine.Run

/-!
The generator as a program. It reads the working directory and what lies below it, answers its
arguments as if there were no other files, and puts what was written on disk. What happened is told
on the standard error.
-/

namespace Phrasebook.Program

def bytesOf (s : String) : Bytes := Utf8.encode s.toList

partial def readDirectory (name : String) : IO FileTree := do
  let mut entries : FileTree.Entries := []
  for entry in ← (← IO.FS.realPath name).readDir do
    let below := name ++ "/" ++ entry.fileName
    let node ← match (← entry.path.symlinkMetadata).type with
      | .dir => readDirectory below
      | .symlink => do
        let real ← IO.FS.realPath below
        pure (.link (bytesOf real.toString))
      | _ => do pure (.file (← IO.FS.readBinFile below).toList)
    entries := FileTree.put (bytesOf entry.fileName) node entries
  return .directory entries

/-- The file system in which only the working directory is filled. -/
def readFiles : IO FileSystem := do
  let path := bytesOf (← IO.currentDir).toString
  let home := (path.splitOn Path.slash).filter (!·.isEmpty)
  let tree ← readDirectory "."
  return ⟨home.foldr (fun name below => .directory [(name, below)]) tree, home⟩

def store (files : FileSystem) (path : Path) : IO Unit := do
  if let .ok content := files.readBytes path then
    let name := String.ofList path.toText
    if let some (above, _) := Cut.last '/' name.toList then
      IO.FS.createDirAll (String.ofList above)
    IO.FS.writeBinFile name ⟨content.toArray⟩

def report (e : CommandLine.Event) : IO Unit := do
  let level := if e.isError then "ERROR " else "INFO "
  (← IO.getStderr).putStrLn (level ++ String.ofList e.message)

end Phrasebook.Program

open Phrasebook in
def main (arguments : List String) : IO UInt32 := do
  let files ← Program.readFiles
  let outcome := CommandLine.respond files (arguments.map (·.toList))
  for event in outcome.events do
    if let .written _ path := event then Program.store outcome.files path
    Program.report event
  (← IO.getStdout).putStr (String.ofList outcome.output)
  return outcome.exitCode.toUInt32
