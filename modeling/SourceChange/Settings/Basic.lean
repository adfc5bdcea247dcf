import SourceChange.Disk.Workspace
import SourceChange.Json.Value
import SourceChange.Text.Case
import SourceChange.Text.Utf8
import SourceChange.Yaml.Cursor

/-!
The settings of the engine, their defaults and presets, and the conditions they have to satisfy.
-/

namespace SourceChange

/-- A time in seconds, as a whole number or as a fraction. -/
inductive Seconds where
  | whole (n : Int)
  | fraction (x : Binary64)
  deriving DecidableEq, Repr

namespace Seconds

/-- The time as a fraction. -/
def value : Seconds → Binary64
  | whole n => Binary64.ofInt n
  | fraction x => x

/-- The text of a time. -/
def text : Seconds → String
  | whole n => toString n
  | fraction x => x.text

/-- Whether a time is at most zero. -/
def atMostZero : Seconds → Bool
  | whole n => n ≤ 0
  | fraction x => x.atMostZero

end Seconds

/-- The settings of the engine. -/
structure Settings where
  parallel : Bool
  maxWorkers : Int
  fileTimeout : Seconds
  validateBindings : Bool
  extractionAdvice : Bool
  maxFileLines : Int
  maxBlockLines : Int
  minDuplicateLines : Int
  treeCache : Bool
  treeCacheSize : Int
  logLevel : String
  logFile : Option String
  deriving DecidableEq, Repr

/-- What can be wrong with settings. -/
inductive SettingsFault where
  | badLogLevel (level : String)
  | badWorkers (n : Int)
  | badTimeout (t : Seconds)
  | tooSmall (field : String) (n : Int)
  | unknownPreset (name : String)
  | unknownFields (names : List String)
  /-- A value of a wrong type for a field. -/
  | wrongType (field : String)
  | badBoolean (name value : String)
  | badInteger (name value : String)
  | badNumber (name value : String)
  | belowOne (name : String) (n : Int)
  | notPresetNorFile (name : String)
  /-- A path holds a null character. -/
  | nullInPath
  /-- A link on a path leads back to itself. -/
  | circularPath (fault : Disk.WorkspaceFault)
  | fileMissing (path : String)
  | notFile (path : String)
  | badFormat (suffix : String)
  | badYaml (path : String)
  /-- A scalar in a YAML file is not of the type it claims to be. -/
  | badScalar (fault : Yaml.Fault)
  | badToml (path : String)
  | notMapping (kind : String)
  | badSection (name path kind : String)
  | badValue (path : String)
  /-- A number without end stands where a whole number is wanted. -/
  | overflow
  /-- A whole number is too large to be a fraction. -/
  | tooLarge
  /-- A file holds bytes that are no text. -/
  | notText (fault : Text.Utf8Fault)
  deriving Repr

namespace Settings

/-- The valid log levels, sorted. -/
def logLevels : List String := ["CRITICAL", "DEBUG", "ERROR", "INFO", "WARNING"]

/-- The names of the presets, sorted. -/
def presetNames : List String := ["aggressive", "balanced", "conservative"]

/-- The settings that hold unless others are given. -/
def standard : Settings :=
  { parallel := false
    maxWorkers := 4
    fileTimeout := .fraction (Binary64.ofInt 30)
    validateBindings := true
    extractionAdvice := true
    maxFileLines := 300
    maxBlockLines := 50
    minDuplicateLines := 5
    treeCache := false
    treeCacheSize := 128
    logLevel := "INFO"
    logFile := none }

/-- The settings for the greatest safety. -/
def conservative : Settings :=
  { standard with maxWorkers := 2, fileTimeout := .fraction (Binary64.ofInt 60) }

/-- The settings for the greatest speed. -/
def aggressive : Settings :=
  { standard with
    parallel := true
    maxWorkers := 16
    fileTimeout := .fraction (Binary64.ofInt 10)
    extractionAdvice := false
    treeCache := true
    treeCacheSize := 512
    logLevel := "WARNING" }

/-- The presets by name. -/
def presets : List (String × Settings) :=
  [("conservative", conservative), ("balanced", standard), ("aggressive", aggressive)]

/-- The preset with a name, in any case. -/
def preset (name : String) : Except SettingsFault Settings :=
  match presets.lookup (Text.lower name) with
  | some s => .ok s
  | none => .error (.unknownPreset name)

/-- The counts that have to be positive, by the names of their fields. -/
def counts (s : Settings) : List (String × Int) :=
  [("max_file_lines", s.maxFileLines), ("max_jsx_block_lines", s.maxBlockLines),
   ("min_duplicate_block_lines", s.minDuplicateLines), ("tree_cache_size", s.treeCacheSize)]

/-- Refuses settings that are out of bounds. -/
def validate (s : Settings) : Except SettingsFault Settings := do
  if !logLevels.contains s.logLevel then throw (.badLogLevel s.logLevel)
  if !(1 ≤ s.maxWorkers && s.maxWorkers ≤ 64) then throw (.badWorkers s.maxWorkers)
  if s.fileTimeout.atMostZero then throw (.badTimeout s.fileTimeout)
  s.counts.forM fun (field, n) => if n < 1 then throw (.tooSmall field n) else pure ()
  return s

end Settings

namespace SettingsFault

/-- A list of names as messages show it. -/
def shownNames (names : List String) : String := (Json.array (names.map .string)).shown

/-- The wording of a fault. -/
def message : SettingsFault → String
  | badLogLevel level =>
    "Invalid log level: " ++ level ++ ". Must be one of " ++ shownNames Settings.logLevels
  | badWorkers n => "max_workers must be between 1 and 64, got " ++ toString n
  | badTimeout t => "file_timeout_seconds must be positive, got " ++ t.text
  | tooSmall field n => field ++ " must be >= 1, got " ++ toString n
  | unknownPreset name =>
    "Unknown preset '" ++ name ++ "'. Must be one of " ++ shownNames Settings.presetNames
  | unknownFields names => "Unknown configuration field(s): " ++ Text.join ", " names
  | wrongType field => "Wrong type for " ++ field
  | badBoolean name value =>
    "Invalid " ++ name ++ "='" ++ value ++ "'. Must be true/false, 1/0, yes/no, or on/off"
  | badInteger name value =>
    "Invalid " ++ name ++ "='" ++ value ++ "'. Must be an integer"
  | badNumber name value => "Invalid " ++ name ++ "='" ++ value ++ "'. Must be a number"
  | belowOne name n => name ++ "=" ++ toString n ++ " must be >= 1"
  | notPresetNorFile name =>
    "'" ++ name ++ "' is neither a preset (" ++ Text.join ", " Settings.presetNames ++
      ") nor a config file"
  | nullInPath => "Invalid config file path: embedded null byte"
  | circularPath fault => fault.message
  | fileMissing path => "Config file not found: " ++ path
  | notFile path => "Config path is not a file: " ++ path
  | badFormat suffix =>
    "Unsupported config file format: " ++ suffix ++ ". Must be .yaml, .yml, or .toml"
  | badYaml path => "Invalid YAML in " ++ path
  | badScalar fault => fault.message
  | badToml path => "Invalid TOML in " ++ path
  | notMapping kind => "Config file must contain a mapping/dict, got " ++ kind
  | badSection name path kind => "Invalid " ++ name ++ " type in " ++ path ++ ": " ++ kind
  | badValue path => "Invalid value in " ++ path
  | overflow => "cannot convert float infinity to integer"
  | tooLarge => "int too large to convert to float"
  | notText fault => fault.message

end SettingsFault

end SourceChange
