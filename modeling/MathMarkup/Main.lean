import MathMarkup.Program.Run

/-!
# The program

Reads what a command may read, carries the command out and writes what it changed.
-/

namespace MathMarkup.Program

open System (FilePath)

/-- What stands at a path, with all that is below it if `whole` is set. -/
partial def snapshot (whole : Bool) (path : FilePath) : IO (Except FileFault FileTree) := do
  try
    if ← path.isDir then
      if !whole then return .ok (.directory [])
      let mut entries := []
      for entry in ← path.readDir do
        match ← snapshot whole entry.path with
        | .ok tree => entries := entries ++ [(entry.fileName, tree)]
        | .error _ => IO.eprintln ("skipping " ++ entry.path.toString)
      return .ok (.directory entries)
    else return .ok (.file (← IO.FS.readBinFile path))
  catch
    | .noFileOrDirectory .. => return .error .notFound
    | .inappropriateType .. => return .error .notDirectory
    | fault => throw fault

/-- What an optional path leads to. -/
def snapshot? (whole : Bool) : Option String → IO (Except FileFault FileTree)
  | none => return .error .notFound
  | some path => snapshot whole path

/-- Whether a command reads standard input. -/
def Task.readsInput : Task → Bool
  | formula source _ => source.isNone
  | document => true
  | file _ => false
  | tree _ => false

/-- Whether a task goes through directories. -/
def Task.isTree : Task → Bool
  | tree _ => true
  | _ => false

/-- Writes the files of a tree that differ from what was there before. -/
def writeChanges (verbose : Bool) (path : String) (before after : FileTree) : IO Unit := do
  for ((path, old), (_, new)) in (before.files path).zip (after.files path) do
    if old.data ≠ new.data then
      IO.FS.writeBinFile path new
      if verbose then IO.eprintln ("wrote " ++ path)

/-- Shows the end of a run and yields its exit code. -/
def finish (outcome : Outcome) : IO UInt32 := do
  (← IO.getStdout).putStr (String.ofList outcome.output)
  match outcome.stop with
  | none => pure ()
  | some stop => IO.eprintln stop.message
  return outcome.exitCode.toUInt32

/-- Carries out a command line. -/
def runArguments (arguments : List String) : IO UInt32 := do
  match readCommand arguments with
  | .error halt => finish halt.outcome
  | .ok command =>
    let target ← snapshot? command.task.isTree command.task.path?
    let settingsFile ← snapshot? false command.settingsFile
    let standardInput ←
      if command.task.readsInput then (← IO.getStdin).readBinToEnd else pure ByteArray.empty
    let outcome := run command ⟨standardInput, settingsFile, target⟩
    match command.task.path?, target, outcome.target with
    | some path, .ok before, some after => writeChanges command.verbose path before after
    | _, _, _ => pure ()
    finish outcome

end MathMarkup.Program

def main (arguments : List String) : IO UInt32 :=
  MathMarkup.Program.runArguments arguments
