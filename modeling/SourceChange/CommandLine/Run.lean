import SourceChange.CommandLine.Apply
import SourceChange.CommandLine.Display
import SourceChange.Disk.Basic
import SourceChange.Source.Call
import SourceChange.Source.Element
import SourceChange.Source.Function
import SourceChange.Source.Import

/-!
Running a command line. The advice on source files starts with the most complex one.

A disk that agrees with the real one on the paths that a run looks at is enough for the run.
-/

namespace SourceChange.CommandLine

open Source

/-! ### Showing what a source file declares -/

/-- The line of a node as a cell. -/
def lineCell (t : Tree) (h : Handle) : String := toString (t.line h.span.start)

/-- How a function is exported. -/
def exportCell (f : Function) : String :=
  if f.isDefaultExport then "default" else if f.isExported then "named" else ""

/-- The table of functions. -/
def functionTable (t : Tree) : Printed :=
  .table "Functions" ["Line", "Name", "Kind", "Export"]
    (t.functions.map fun f =>
      let name := f.name.getD ""
      [lineCell t f.handle, if name == "" then "<anonymous>" else name, f.form.name, exportCell f])

/-- The table of state hooks. -/
def stateTable (t : Tree) : Printed :=
  .table "State hooks" ["Line", "State", "Setter", "Initial value"]
    (t.stateHooks.map fun s =>
      [lineCell t s.handle, s.state, s.setter.getD "", escape (s.initial.getD "")])

/-- The bindings of an import as a cell. -/
def bindingsCell (i : Source.Import) : String :=
  Text.join ", " (i.names.map fun n =>
    match n.form with
    | .namespace => "* as " ++ n.localName
    | _ => n.localName)

/-- The table of imports. -/
def importTable (t : Tree) : Printed :=
  .table "Imports" ["Line", "Source", "Bindings"]
    (t.imports.map fun i =>
      [lineCell t i.handle, escape (if i.isTypeOnly then i.source ++ " (type)" else i.source),
       bindingsCell i])

/-- The table of event handlers. -/
def handlerTable (t : Tree) : Printed :=
  .table "Event handlers" ["Line", "Element", "Event", "Handler"]
    (t.eventHandlers.map fun h =>
      [lineCell t h.handle, h.tag, h.event, if h.isInline then "<inline>" else h.handler.getD ""])

/-- Carries out `inspect`. -/
def runInspect (host : Host) (file : String) (disk : Disk) : Session :=
  let language := Language.ofPath (Path.lastName file)
  let shown := Path.tidy file
  if language == .plaintext then
    .ended (.refused (shown ++ " is not a JSX/TSX/JS/TS source file")) disk
  else
    match disk.readText file with
    | .error .notText => .ended (.crashed .notText) disk
    | .error .missing => .ended (.crashed .missing) disk
    | .ok text =>
      let t := Tree.build 1 language text.toList
      if t.hasErrors then host.saying [.syntaxErrors shown] disk (.ended .failure disk)
      else
        host.saying [functionTable t, stateTable t, importTable t, handlerTable t] disk
          (.ended .success disk)

/-! ### Runs -/

/-- The texts of files by their paths. -/
def readAll (disk : Disk) : List String → Files → Except Ending Files
  | [], files => return files
  | p :: ps, files =>
    match disk.readText p with
    | .ok text => readAll disk ps (files.set (Path.tidy p) text)
    | .error .notText => throw (.crashed .notText)
    | .error .missing => throw (.crashed .missing)

/-- The table of how complex files are. -/
def complexityTable (analyses : List Advice.Analysis) : Printed :=
  .table "Complexity" ["File", "Lines", "Score", "Suggestions"]
    (analyses.map fun a =>
      [safe a.path, toString a.lines, a.score.fixedText 0 ++ "/100", toString a.suggestions.length])

/-- Carries out `advise`. -/
def runAdvise (host : Host) (files : List String) (config : Option String) (env : Environment)
    (disk : Disk) : Session :=
  match Settings.load disk env config (.ok .silent) with
  | .error f => refuseSettings host f.message disk
  | .ok (settings, _) =>
    match readAll disk files [] with
    | .error ending => .ended ending disk
    | .ok texts =>
      let analyses := (StateT.run (Advice.analyzeAll settings.limits texts) Reader.plain).1
      let suggestions := analyses.flatMap (·.suggestions)
      let advice :=
        if suggestions.isEmpty then [.line "[green]No extraction suggestions[/green]"]
        else suggestionTable suggestions
      host.saying (complexityTable analyses :: advice) disk (.ended .success disk)

/-- Runs a command line on a disk. A change set without a name gets the name `fresh`. -/
def run (args : List String) (env : Environment) (fresh : String) (disk : Disk) (host : Host := .plain) :
    Session :=
  match parse? disk args with
  | none => .ended .usage disk
  | some .information => .ended .success disk
  | some (.apply o) => runApply host o env fresh disk
  | some (.inspect file) => runInspect host file disk
  | some (.advise files config) => runAdvise host files config env disk

/-- The paths in the arguments: every argument might be one, and so might what follows an equals sign. -/
def argumentPaths (args : List String) : List String :=
  args.flatMap fun arg => arg :: (cutValue arg).2.toList

/-- A path in a workspace. -/
def inWorkspace (o : ApplyOptions) (path : String) : String := Path.join o.workspace path

/-- The paths that a change set names. -/
def namedPaths (disk : Disk) (o : ApplyOptions) : List String :=
  match readChangeSet disk o.changeSet with
  | .ok c => c.files.map fun f => inWorkspace o f.path
  | .error _ => []

/-- The paths that the result of a change set would be written to, and that of the log. -/
def resultPaths (disk : Disk) (o : ApplyOptions) (env : Environment) : List String :=
  match Settings.load disk env o.config (.ok o.overrides) with
  | .error _ => []
  | .ok (settings, _) =>
    settings.logFile.toList.map (logPath disk) ++
      match loadAll disk o with
      | .error _ => []
      | .ok (c, files) =>
        let r := (StateT.run (c.apply settings .calm "" files) settings.reader).1
        (r.modified.map fun m => inWorkspace o m.path).flatMap fun p =>
          [p, Disk.temporaryPath p, Disk.backupPath p]

/-- The paths that a run looks at, as far as a disk tells. -/
def mentioned (args : List String) (env : Environment) (disk : Disk) : List String :=
  argumentPaths args ++
    match parse? disk args with
    | some (.apply o) => namedPaths disk o ++ resultPaths disk o env
    | _ => []

end SourceChange.CommandLine
