import SourceChange.CommandLine.Arguments
import SourceChange.CommandLine.Display
import SourceChange.Disk.Workspace
import SourceChange.Disk.Write
import SourceChange.Json.Reader
import SourceChange.Json.Value
import SourceChange.Report
import SourceChange.Safety
import SourceChange.Settings.Load

/-!
Applying a change set to the files of a workspace.

The files that a change set names are read first, and a path that is not safe stops the run before
anything is changed. Results are written one file after the other; what must not be written is skipped
and reported. A log, if one is wanted, is opened before anything is read.
-/

namespace SourceChange.CommandLine

/-- Reads the change set in a file. -/
def readChangeSet (disk : Disk) (file : String) : Except Ending ChangeSet := do
  let invalid := Ending.refused (Path.tidy file ++ " is not a valid JSON file")
  match disk.readText file with
  | .error _ => throw invalid
  | .ok text =>
    match Json.parse? text.toList with
    | none => throw invalid
    | some payload =>
      match ChangeSet.read payload with
      | .ok c => return c
      | .error (.fault f) => throw (.refused ("Invalid change set: " ++ f.message))
      | .error .entryNotObject => throw (.crashed .entryNotObject)

/-- How a run ends because of a path that is not one in the workspace. -/
def faultEnding : Disk.WorkspaceFault → Ending
  | .circular _ => .crashed .circularLink
  | f => .refused f.message

/-- The text at a path in a workspace, if there is a file. -/
def loadFile (disk : Disk) (workspace path : String) : Except Ending (Option String) := do
  if !Safety.isSafePath path then
    throw (.refused ("Unsafe path in change set: " ++ Text.quote path))
  let loc ← (disk.resolveIn workspace path).mapError faultEnding
  let full := Disk.pathOf loc
  match disk.hasFittingFile? full with
  | none => return none
  | some false => throw (.refused (path ++ " is not a regular file or is too large"))
  | some true =>
    match disk.readText full with
    | .ok text => return some text
    | .error _ => throw (.refused (path ++ " is not valid UTF-8"))

/-- The texts at paths in a workspace, as far as there are files. -/
def loadFiles (disk : Disk) (workspace : String) : List String → Files → Except Ending Files
  | [], files => return files
  | path :: paths, files => do
    if (files.lookup path).isSome then loadFiles disk workspace paths files
    else
      match ← loadFile disk workspace path with
      | some text => loadFiles disk workspace paths (files.set path text)
      | none => loadFiles disk workspace paths files

/-- What became of writing one file. -/
inductive Publication where
  | written (disk : Disk)
  | skipped (disk : Disk)
  | broken (disk : Disk) (crash : Crash)

/-- Writes one modified file into a workspace. A file that would be created over another one is
skipped, and so is one outside the workspace. -/
def publishFile (disk : Disk) (workspace : String) (m : ModifiedFile) : Publication :=
  match disk.resolveIn workspace m.path with
  | .error (.circular _) => .broken disk .circularLink
  | .error _ => .skipped disk
  | .ok loc =>
    let full := Disk.pathOf loc
    match m.action with
    | .delete =>
      match disk.delete full with
      | (disk, true) => .written disk
      | (disk, false) => .skipped disk
    | action =>
      if action == .create && disk.isPresent full then .skipped disk
      else
        match disk.atomicWrite full m.content.toUTF8 true with
        | (disk, .done) => .written disk
        | (disk, .stuck) => .broken disk .cannotClear
        | (disk, _) => .broken disk .cannotWrite

/-- Writes modified files into a workspace, one after the other; gives the paths that were skipped. -/
def publish (workspace : String) : List ModifiedFile → Disk → List String →
    Disk × List String × Option Crash
  | [], disk, skipped => (disk, skipped, none)
  | m :: ms, disk, skipped =>
    match publishFile disk workspace m with
    | .written disk => publish workspace ms disk skipped
    | .skipped disk => publish workspace ms disk (skipped ++ [m.path])
    | .broken disk crash => (disk, skipped, some crash)

/-- What is printed after the files are written. -/
def writtenLines (modified : List ModifiedFile) (skipped : List String) : List Printed :=
  .line ("\n[green]Wrote " ++ toString (modified.length - skipped.length) ++ " file(s)[/green]") ::
    skipped.map fun p => .line ("[red]Skipped " ++ safe p ++ "[/red]")

/-- What is printed at the end. -/
def finalLine (r : ApplyResult) : Printed :=
  if r.success then .line "\n[bold green]✅ All file changes applied[/bold green]"
  else .line ("\n[red]❌ " ++ toString r.errors.length ++ " file change(s) failed[/red]")

/-- What is printed about a result. -/
def resultLines (c : ChangeSet) (r : ApplyResult) (earlier : Files) : List Printed :=
  let summary := if c.summary == "" then "" else safe c.summary
  .line ("\n[bold]Change set[/bold] " ++ r.id.getD "" ++ " " ++ summary) :: resultTables r earlier

/-- Writes the result as JSON into a file, if one is given. -/
def writeOutput? (disk : Disk) (r : ApplyResult) : Option String → Option Disk
  | none => some disk
  | some file => disk.writeFile? file (r.json.indented ++ "\n").toUTF8

/-- Prints something before the rest of a run, unless the result is asked for as JSON. -/
def tell (host : Host) (o : ApplyOptions) (ps : List Printed) (disk : Disk) (rest : Session) : Session :=
  if o.asJson then rest else host.saying ps disk rest

/-- Ends a run: says what came of it, writes the files, if that is asked for, and says how it went. -/
def finish (host : Host) (o : ApplyOptions) (r : ApplyResult) (lines : List Printed) (disk : Disk) :
    Session :=
  let ended (ending : Ending) (disk : Disk) : Session :=
    ⟨ending, [], if o.asJson then some r.json else none, disk⟩
  let ending := if r.success then Ending.success else .failure
  tell host o lines disk <|
    if o.write then
      match publish o.workspace r.modified disk [] with
      | (disk, skipped, none) =>
        tell host o (writtenLines r.modified skipped ++ [finalLine r]) disk (ended ending disk)
      | (disk, _, some crash) => ended (.crashed crash) disk
    else tell host o [finalLine r] disk (ended ending disk)

/-- The change set and the files it names. -/
def loadAll (disk : Disk) (o : ApplyOptions) : Except Ending (ChangeSet × Files) := do
  let c ← readChangeSet disk o.changeSet
  return (c, ← loadFiles disk o.workspace (c.files.map (·.path)) [])

/-! ### The log -/

/-- The path at which a log is opened: the absolute path of the file, in normal form. -/
def logPath (disk : Disk) (file : String) : String :=
  Path.normalize (Path.join (Disk.pathOf disk.current) file)

/-- Adds to a log, which is made if it is missing; nothing where it cannot be opened. -/
def appendLog? (disk : Disk) (content : ByteArray) (file : String) : Option Disk :=
  let path := logPath disk file
  if path.toList.contains '\x00' then none
  else disk.writeFile? path ((disk.content? path).getD .empty ++ content)

/-- Opens the log, if one is wanted. -/
def openLog? (disk : Disk) : Option String → Option Disk
  | none => some disk
  | some file => appendLog? disk .empty file

/-- Writes what is logged into the log, if one is wanted. What cannot be written is lost. -/
def keepLog (host : Host) (disk : Disk) : Option String → Disk
  | none => disk
  | some file => (appendLog? disk host.log file).getD disk

/-! ### Runs -/

/-- A fault in the settings, or in what they ask for, as it is printed. -/
def configurationLine (message : String) : Printed :=
  .line ("[red]❌ Configuration error: " ++ message ++ "[/red]")

/-- Ends a run because of its settings. -/
def refuseSettings (host : Host) (message : String) (disk : Disk) : Session :=
  host.saying [configurationLine message] disk (.ended .failure disk)

/-- Applies a change set with given settings. -/
def applyWith (host : Host) (o : ApplyOptions) (settings : Settings) (fresh : String) (disk : Disk) :
    Session :=
  match loadAll disk o with
  | .error ending => .ended ending disk
  | .ok (c, files) =>
    let r := (StateT.run (c.apply settings .calm fresh files) settings.reader).1
    let disk := keepLog host disk settings.logFile
    match writeOutput? disk r o.output with
    | none => .ended (.crashed .missing) disk
    | some disk => finish host o r (resultLines c r files) disk

/-- Carries out `apply`. A change set without a name gets the name `fresh`. -/
def runApply (host : Host) (o : ApplyOptions) (env : Environment) (fresh : String) (disk : Disk) : Session :=
  match Settings.load disk env o.config (.ok o.overrides) with
  | .error f => refuseSettings host f.message disk
  | .ok (settings, _) =>
    match openLog? disk settings.logFile with
    | none => refuseSettings host (host.fault ((settings.logFile.map (logPath disk)).getD "")) disk
    | some disk => applyWith host o settings fresh disk

end SourceChange.CommandLine
