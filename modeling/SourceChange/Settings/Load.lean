import SourceChange.Disk.Basic
import SourceChange.Number.Reader
import SourceChange.Settings.Layer
import SourceChange.Settings.Sections
import SourceChange.Toml.Document
import SourceChange.Yaml.Value

/-!
The settings of a run.

A preset or a configuration file is the base; the environment lies over it, and the overrides of the
command line over both.
-/

/-! ### Settings from environment variables

A variable that is not set mentions nothing.
-/

namespace SourceChange

/-- Environment variables. -/
abbrev Environment := List (String × String)

namespace Environment

/-- The name of the variable for a setting. -/
def variableName (setting : String) : String := "JCE_" ++ setting

/-- The settings that have a variable. -/
def settings : List String :=
  ["PARALLEL", "MAX_WORKERS", "FILE_TIMEOUT", "VALIDATE_BINDINGS", "EXTRACTION_ADVICE",
   "MAX_FILE_LINES", "MAX_JSX_BLOCK_LINES", "MIN_DUPLICATE_BLOCK_LINES", "TREE_CACHE",
   "TREE_CACHE_SIZE", "LOG_LEVEL", "LOG_FILE"]

/-- The words for true. -/
def trueWords : List String := ["true", "1", "yes", "on"]

/-- The words for false. -/
def falseWords : List String := ["false", "0", "no", "off"]

/-- Reads a variable, if it is set. -/
def reading {α : Type} (env : Environment) (setting : String)
    (read : String → String → Except SettingsFault α) : Except SettingsFault (Option α) :=
  let name := variableName setting
  match env.lookup name with
  | none => .ok none
  | some value => (read name value).map some

/-- A boolean, in any case. -/
def flag (name value : String) : Except SettingsFault Bool :=
  let word := Text.lower value
  if trueWords.contains word then .ok true
  else if falseWords.contains word then .ok false
  else .error (.badBoolean name word)

/-- A positive whole number. -/
def count (name value : String) : Except SettingsFault Int :=
  match Number.readInt? value with
  | none => .error (.badInteger name value)
  | some n => if n < 1 then .error (.belowOne name n) else .ok n

/-- A time in seconds. -/
def seconds (name value : String) : Except SettingsFault Seconds :=
  match Number.readBinary? value with
  | none => .error (.badNumber name value)
  | some x => .ok (.fraction x)

/-- A log level, in any case. -/
def level (_name value : String) : Except SettingsFault String := .ok (Text.upper value)

/-- What the environment says about the settings. An empty log file counts as none. -/
def layer (env : Environment) : Except SettingsFault Layer := do
  return {
    parallel := ← env.reading "PARALLEL" flag
    maxWorkers := ← env.reading "MAX_WORKERS" count
    fileTimeout := ← env.reading "FILE_TIMEOUT" seconds
    validateBindings := ← env.reading "VALIDATE_BINDINGS" flag
    extractionAdvice := ← env.reading "EXTRACTION_ADVICE" flag
    maxFileLines := ← env.reading "MAX_FILE_LINES" count
    maxBlockLines := ← env.reading "MAX_JSX_BLOCK_LINES" count
    minDuplicateLines := ← env.reading "MIN_DUPLICATE_BLOCK_LINES" count
    treeCache := ← env.reading "TREE_CACHE" flag
    treeCacheSize := ← env.reading "TREE_CACHE_SIZE" count
    logLevel := ← env.reading "LOG_LEVEL" level
    logFile := (env.lookup (variableName "LOG_FILE")).filter (· != "") }

end Environment

/-- The settings of an environment; what it does not mention is standard. -/
def Settings.ofEnvironment (env : Environment) : Except SettingsFault Settings := do
  Settings.standard.merge (← env.layer)

end SourceChange

/-! ### The settings of a run -/

namespace SourceChange.Settings

/-- The text of a configuration file. Where the bytes end within a character, `fromEnd` says that the place
is counted from the start of that character. -/
def fileText (disk : Disk) (path : String) (fromEnd : Bool) : Except SettingsFault String :=
  match disk.content? path with
  | none => .error (.fileMissing path)
  | some bytes =>
    match Text.utf8Fault? bytes.toList with
    | some fault =>
      .error (.notText (if fromEnd && fault.reason == .earlyEnd then { fault with start := 0 } else fault))
    | none => .ok ((String.fromUTF8? bytes).getD "")

/-- The settings of a YAML file; an empty one mentions nothing. -/
def ofYaml (text path : String) : Except SettingsFault Settings :=
  match Yaml.parse text with
  | .error .malformed => .error (.badYaml path)
  | .error fault => .error (.badScalar fault)
  | .ok .null => ofSections [] path
  | .ok (.table ms) => ofSections ms path
  | .ok v => .error (.notMapping v.kindName)

/-- The settings of a TOML file. -/
def ofToml (text path : String) : Except SettingsFault Settings :=
  match Toml.parse? text with
  | some ms => ofSections ms path
  | none => .error (.badToml path)

/-- The settings of a configuration file, in the format that its extension names. -/
def ofFile (disk : Disk) (path : String) : Except SettingsFault Settings :=
  if path.toList.contains '\x00' then .error .nullInPath
  else
    match disk.settledPlace path with
    | .error fault => .error (.circularPath fault)
    | .ok loc => do
      let full := Disk.pathOf loc
      if !disk.isPresent full then throw (.fileMissing full)
      if !disk.isFile full then throw (.notFile full)
      let suffix := Text.lower (Path.suffix full)
      if suffix == ".yaml" || suffix == ".yml" then
        let text ← fileText disk full true
        ofYaml (String.ofList (Disk.unifyLines text.toList)) full
      else if suffix == ".toml" then
        ofToml (← fileText disk full false) full
      else throw (.badFormat suffix)

/-- The base of the settings, and the preset that it is, if it is one. -/
def base (disk : Disk) : Option String → Except SettingsFault (Settings × Option String)
  | none => .ok (standard, none)
  | some config => do
    let name := Text.lower config
    if (presets.lookup name).isSome then return (← preset name, some name)
    else if disk.isPresent config then return (← ofFile disk config, none)
    else throw (.notPresetNorFile config)

/-- The settings of a run, and the preset they start from, if they do. -/
def load (disk : Disk) (env : Environment) (config : Option String) (overrides : Except SettingsFault Layer) :
    Except SettingsFault (Settings × Option String) := do
  let (s, name) ← base disk config
  let mentioned ← env.layer
  let _ ← standard.merge mentioned
  let s ← s.merge mentioned
  return (← s.merge (← overrides), name)

end SourceChange.Settings
