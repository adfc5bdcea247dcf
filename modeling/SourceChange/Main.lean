import SourceChange.CommandLine.Run
import SourceChange.Disk.Basic
import SourceChange.Disk.Write

/-!
The command line.

Everything is decided by `CommandLine.run`, on a disk that holds what the run looks at. Here that disk is
filled from the real one, and the differences that the run makes are carried over. The console shows every
text as it is.
-/

open SourceChange

namespace SourceChange.Main

/-- How the command line is used. -/
def usage : String :=
  "Usage: apply CHANGESET [--workspace DIR] [--write] [--output FILE] [--json] [--config CONFIG]\n" ++
  "             [--parallel | --no-parallel] [--max-workers N] [--log-level LEVEL]\n" ++
  "             [--log-file FILE] [--no-advice]\n" ++
  "       inspect FILE\n" ++
  "       advise FILE... [--config CONFIG]"

/-- What stands at a path of the real disk. -/
def probe (path : String) : IO (Option Entry) := do
  try
    return some (.file (← IO.FS.readBinFile path))
  catch _ =>
    try
      let _ ← IO.FS.realPath path
      return some .directory
    catch _ => return none

/-- The disk with what stands at a path of the real one, and with the directories above it. -/
def learn (disk : Disk) (path : String) : IO Disk := do
  match ← probe path with
  | none => return disk
  | some e =>
    let loc := disk.resolve path
    let above := (List.range loc.length).map fun n => loc.take n
    let disk := above.foldl (fun d l => if (d.entry? l).isSome then d else d.put l .directory) disk
    return if loc.isEmpty then disk else disk.put loc e

/-- The disk with everything that a run looks at. Reading the change set may bring in further paths, and
so may carrying it out. -/
def learnAll (args : List String) (env : Environment) (disk : Disk) : IO Disk := do
  let disk ← (CommandLine.mentioned args env disk).foldlM learn disk
  let disk ← (CommandLine.mentioned args env disk).foldlM learn disk
  (CommandLine.mentioned args env disk).foldlM learn disk

/-- The environment of the settings. -/
def environment : IO Environment := do
  let mut env : Environment := []
  for setting in Environment.settings do
    let name := Environment.variableName setting
    match ← IO.getEnv name with
    | some value => env := env ++ [(name, value)]
    | none => pure ()
  return env

/-- Carries a difference over to the real disk. -/
def carry : Disk.Change → IO Unit
  | .made path => IO.FS.createDirAll path
  | .written path content => do
    IO.FS.createDirAll (Path.directory path)
    IO.FS.writeBinFile (Disk.temporaryPath path) content
    IO.FS.rename (Disk.temporaryPath path) path
  | .gone path => IO.FS.removeFile path

/-- The lines of something that is printed. -/
def lines : CommandLine.Printed → List String
  | .table title columns rows => title :: (columns :: rows).map (Text.join " | ")
  | p => p.texts

/-- Says how a run ended. -/
def report : CommandLine.Ending → IO Unit
  | .usage => IO.eprintln usage
  | .refused message => IO.eprintln ("Error: " ++ message)
  | .crashed _ => IO.eprintln "Error: a file cannot be read or written"
  | .unprintable => IO.eprintln "Error: the console cannot show the output"
  | _ => pure ()

end SourceChange.Main

/-- Runs the command line. -/
def main (args : List String) : IO UInt32 := do
  let home := (← IO.getEnv "PWD").getD "/"
  let env ← Main.environment
  let disk ← Main.learn ⟨[], Path.steps home⟩ home
  let disk ← Main.learnAll args env disk
  let fresh := "cs-" ++ toString (← IO.monoNanosNow)
  let session := CommandLine.run args env fresh disk
  (disk.changes session.disk).forM Main.carry
  (session.printed.flatMap Main.lines).forM fun line => IO.println line
  match session.json with
  | some v => IO.println v.indented
  | none => pure ()
  Main.report session.ending
  return session.ending.status.toUInt32
