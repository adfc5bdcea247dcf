import SourceChange.Disk.Basic
import SourceChange.Number.Reader
import SourceChange.Settings.Layer

/-!
The arguments of the command line.

Options and plain arguments may be mixed; `--` ends the options. An option that takes a value takes it
from the next argument, or after an equals sign. Of an option that is given twice the last one counts.
-/

namespace SourceChange.CommandLine

/-- Arguments, divided into options and the rest. -/
structure Divided where
  /-- Options in the order given, each with its value if it takes one. -/
  options : List (String × Option String)
  plain : List String

namespace Divided

/-- Adds an option in front. -/
def withOption (d : Divided) (name : String) (value : Option String) : Divided :=
  { d with options := (name, value) :: d.options }

/-- Adds a plain argument in front. -/
def withPlain (d : Divided) (arg : String) : Divided := { d with plain := arg :: d.plain }

/-- Whether an option is given. -/
def has (d : Divided) (name : String) : Bool := d.options.any (·.1 == name)

/-- The last value of an option. -/
def value? (d : Divided) (name : String) : Option String :=
  ((d.options.filter (·.1 == name)).getLast?).bind (·.2)

end Divided

/-- Cuts an argument at its first equals sign. -/
def cutValue (arg : String) : String × Option String :=
  match Text.cut? ['='] arg.toList with
  | some (name, value) => (String.ofList name, some (String.ofList value))
  | none => (arg, none)

/-- Whether an argument is an option. -/
def isOption (arg : String) : Bool := Text.hasStart arg "-" && arg != "-"

/-- Divides arguments, given the options that stand alone and those that take a value. -/
def divide? (flags valued : List String) : List String → Option Divided
  | [] => some ⟨[], []⟩
  | arg :: rest =>
    if arg == "--" then some ⟨[], rest⟩
    else if isOption arg then
      match cutValue arg with
      | (name, some v) =>
        if valued.contains name then (divide? flags valued rest).map (·.withOption name (some v))
        else none
      | (name, none) =>
        if flags.contains name then (divide? flags valued rest).map (·.withOption name none)
        else if valued.contains name then
          match rest with
          | v :: rest' => (divide? flags valued rest').map (·.withOption name (some v))
          | [] => none
        else none
    else (divide? flags valued rest).map (·.withPlain arg)

/-- What `apply` is asked to do. -/
structure ApplyOptions where
  changeSet : String
  workspace : String
  write : Bool
  output : Option String
  asJson : Bool
  config : Option String
  overrides : Layer
  deriving Repr

/-- What the command line asks for. -/
inductive Command where
  /-- Only help or the version is wanted. -/
  | information
  | apply (options : ApplyOptions)
  | inspect (file : String)
  | advise (files : List String) (config : Option String)
  deriving Repr

/-- The levels of the log. -/
def levels : List String := ["DEBUG", "INFO", "WARNING", "ERROR", "CRITICAL"]

/-- A path to a file that is there. -/
def existingFile? (disk : Disk) (p : String) : Option String :=
  if p != "" && disk.isFile p then some p else none

/-- A path to a directory that is there. -/
def existingDirectory? (disk : Disk) (p : String) : Option String :=
  if p != "" && disk.isDirectory p then some p else none

/-- A path that leads to no directory. -/
def newFile? (disk : Disk) (p : String) : Option String := if disk.isDirectory p then none else some p

/-- Checks the value of an option, if it is given. -/
def checked? {α β : Type} (check : α → Option β) : Option α → Option (Option β)
  | none => some none
  | some x => (check x).map some

/-- The last of two opposite flags decides. -/
def lastFlag (d : Divided) (on off : String) : Option Bool :=
  ((d.options.filter fun o => o.1 == on || o.1 == off).getLast?).map (·.1 == on)

/-- A log level by its name in any case. -/
def level? (name : String) : Option String := levels.find? fun l => Text.lower l == Text.lower name

/-- The settings that the options of `apply` override. -/
def overridesOf? (disk : Disk) (d : Divided) : Option Layer := do
  let workers ← checked? Number.readInt? (d.value? "--max-workers")
  let logLevel ← checked? level? (d.value? "--log-level")
  let logFile ← checked? (newFile? disk) (d.value? "--log-file")
  return { Layer.silent with
    parallel := lastFlag d "--parallel" "--no-parallel"
    maxWorkers := workers
    logLevel := logLevel
    logFile := logFile.filter (· != "")
    extractionAdvice := if d.has "--no-advice" then some false else none }

/-- The arguments of `apply`. -/
def parseApply? (disk : Disk) (args : List String) : Option Command := do
  let d ← divide? ["--help", "--write", "--json", "--parallel", "--no-parallel", "--no-advice"]
    ["--workspace", "--output", "--config", "--max-workers", "--log-level", "--log-file"] args
  if d.has "--help" then return .information
  match d.plain with
  | [file] =>
    return .apply {
      changeSet := ← existingFile? disk file
      workspace := ← existingDirectory? disk ((d.value? "--workspace").getD ".")
      write := d.has "--write"
      output := ← checked? (newFile? disk) (d.value? "--output")
      asJson := d.has "--json"
      config := d.value? "--config"
      overrides := ← overridesOf? disk d }
  | _ => none

/-- The arguments of `inspect`. -/
def parseInspect? (disk : Disk) (args : List String) : Option Command := do
  let d ← divide? ["--help"] [] args
  if d.has "--help" then return .information
  match d.plain with
  | [file] => return .inspect (← existingFile? disk file)
  | _ => none

/-- The arguments of `advise`. -/
def parseAdvise? (disk : Disk) (args : List String) : Option Command := do
  let d ← divide? ["--help"] ["--config"] args
  if d.has "--help" then return .information
  if d.plain.isEmpty then none
  return .advise (← d.plain.mapM (existingFile? disk)) (d.value? "--config")

/-- What a command line asks for, unless it is used wrongly. -/
def parse? (disk : Disk) : List String → Option Command
  | [] => none
  | arg :: args =>
    if arg == "--help" || arg == "--version" then some .information
    else
      match arg with
      | "apply" => parseApply? disk args
      | "inspect" => parseInspect? disk args
      | "advise" => parseAdvise? disk args
      | _ => none

end SourceChange.CommandLine
