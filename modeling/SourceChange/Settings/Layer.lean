import SourceChange.Settings.Basic

/-!
What single sources say about the settings.

A `Layer` mentions some fields and leaves the others open. Laid over settings it replaces the fields it
mentions, so that of several layers the last one that mentions a field decides.
-/

namespace SourceChange

/-- What one source says about the settings. -/
structure Layer where
  parallel : Option Bool
  maxWorkers : Option Int
  fileTimeout : Option Seconds
  validateBindings : Option Bool
  extractionAdvice : Option Bool
  maxFileLines : Option Int
  maxBlockLines : Option Int
  minDuplicateLines : Option Int
  treeCache : Option Bool
  treeCacheSize : Option Int
  logLevel : Option String
  logFile : Option String
  deriving DecidableEq, Repr

namespace Layer

/-- A layer that mentions nothing. -/
def silent : Layer :=
  ⟨none, none, none, none, none, none, none, none, none, none, none, none⟩

/-- The layer with its log level in capitals. -/
def withCapitalLevel (l : Layer) : Layer := { l with logLevel := l.logLevel.map Text.upper }

end Layer

namespace Settings

/-- Settings with a layer laid over them. -/
def under (s : Settings) (l : Layer) : Settings :=
  { parallel := l.parallel.getD s.parallel
    maxWorkers := l.maxWorkers.getD s.maxWorkers
    fileTimeout := l.fileTimeout.getD s.fileTimeout
    validateBindings := l.validateBindings.getD s.validateBindings
    extractionAdvice := l.extractionAdvice.getD s.extractionAdvice
    maxFileLines := l.maxFileLines.getD s.maxFileLines
    maxBlockLines := l.maxBlockLines.getD s.maxBlockLines
    minDuplicateLines := l.minDuplicateLines.getD s.minDuplicateLines
    treeCache := l.treeCache.getD s.treeCache
    treeCacheSize := l.treeCacheSize.getD s.treeCacheSize
    logLevel := l.logLevel.getD s.logLevel
    logFile := l.logFile <|> s.logFile }

/-- Settings with a layer laid over them, which have to be within bounds. -/
def merge (s : Settings) (l : Layer) : Except SettingsFault Settings := (s.under l).validate

/-- The public names of the fields. -/
def fieldNames : List String :=
  ["parallel_processing", "max_workers", "file_timeout_seconds", "validate_bindings",
   "extraction_advice", "max_file_lines", "max_jsx_block_lines", "min_duplicate_block_lines",
   "tree_cache_enabled", "tree_cache_size", "log_level", "log_file"]

end Settings

namespace Layer

/-- A field of a mapping, of the type that `convert` accepts; null counts as not mentioned. -/
def field {α : Type} (ms : List (String × Json)) (name : String) (convert : Json → Option α) :
    Except SettingsFault (Option α) :=
  match ms.lookup name with
  | none | some .null => .ok none
  | some v =>
    match convert v with
    | some x => .ok (some x)
    | none => .error (.wrongType name)

/-- A boolean. -/
def asBool : Json → Option Bool
  | .bool b => some b
  | _ => none

/-- A whole number. -/
def asInt : Json → Option Int
  | .int n => some n
  | _ => none

/-- A time in seconds. -/
def asSeconds : Json → Option Seconds
  | .int n => some (.whole n)
  | .float x => some (.fraction x)
  | _ => none

/-- A text. -/
def asText : Json → Option String
  | .string s => some s
  | _ => none

/-- The layer that a mapping by public names describes. -/
def ofMembers (ms : List (String × Json)) : Except SettingsFault Layer := do
  return {
    parallel := ← field ms "parallel_processing" asBool
    maxWorkers := ← field ms "max_workers" asInt
    fileTimeout := ← field ms "file_timeout_seconds" asSeconds
    validateBindings := ← field ms "validate_bindings" asBool
    extractionAdvice := ← field ms "extraction_advice" asBool
    maxFileLines := ← field ms "max_file_lines" asInt
    maxBlockLines := ← field ms "max_jsx_block_lines" asInt
    minDuplicateLines := ← field ms "min_duplicate_block_lines" asInt
    treeCache := ← field ms "tree_cache_enabled" asBool
    treeCacheSize := ← field ms "tree_cache_size" asInt
    logLevel := ← field ms "log_level" fun v => some v.plain
    logFile := ← field ms "log_file" asText }

/-- The names in a mapping that are no public names of fields, sorted; null counts as not mentioned. -/
def unknownNames (ms : List (String × Json)) : List String :=
  let mentioned := ms.filter fun (_, v) =>
    match v with
    | .null => false
    | _ => true
  Text.sorted ((mentioned.map (·.1)).filter fun n => !Settings.fieldNames.contains n)

/-- The layer of overrides: only known fields, and a log level in any case. -/
def overrides (ms : List (String × Json)) : Except SettingsFault Layer :=
  match unknownNames ms with
  | [] => (ofMembers ms).map withCapitalLevel
  | names => .error (.unknownFields names)

end Layer

namespace Settings

/-- The public names of the fields that hold numbers. -/
def numberFields : List String :=
  ["max_workers", "file_timeout_seconds", "max_file_lines", "max_jsx_block_lines",
   "min_duplicate_block_lines", "tree_cache_size"]

/-- Settings by the public names of their fields; what is not given is standard. Null is no log level and
no number. -/
def ofMembers (ms : List (String × Json)) : Except SettingsFault Settings := do
  let isNull (name : String) : Bool :=
    match ms.lookup name with
    | some .null => true
    | _ => false
  if let some (name, _) := ms.find? fun (n, _) => !fieldNames.contains n then throw (.wrongType name)
  if isNull "log_level" then throw (.badLogLevel Json.null.plain)
  let layer ← Layer.ofMembers ms
  let level := layer.logLevel.getD standard.logLevel
  if !logLevels.contains level then throw (.badLogLevel level)
  if let some name := numberFields.find? isNull then throw (.wrongType name)
  standard.merge layer

end Settings

end SourceChange
