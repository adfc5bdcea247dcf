import SourceChange.Datum.Basic
import SourceChange.Number.Reader
import SourceChange.Settings.Layer

/-!
Settings from the sections of a configuration file. A section that is a single boolean says whether what
it is about is enabled.
-/

namespace SourceChange.Settings

/-- The members of a table by their keys. -/
abbrev Members := List (Datum × Datum)

/-- The members of a section. -/
def sectionMembers (data : Members) (source name : String) : Except SettingsFault Members :=
  match Datum.member? name data with
  | none => .ok []
  | some (.bool b) => .ok [(.string "enabled", .bool b)]
  | some (.table ms) => .ok ms
  | some (.enclosing .table) => .ok data
  | some v => .error (.badSection name source v.kindName)

/-- Bytes as the text that they are in ASCII. -/
def asciiText (bs : List UInt8) : String := String.ofList (bs.map fun b => Char.ofNat b.toNat)

/-- A value as a text to read a number from. -/
def numberText? : Datum → Option String
  | .string s => some s
  | .bytes bs => if bs.all (· < 0x80) then some (asciiText bs) else none
  | _ => none

/-- A value as a whole number: fractions are cut off, and texts are read. -/
def wholeNumber (source : String) : Datum → Except SettingsFault Int
  | .bool b => .ok (if b then 1 else 0)
  | .int n => .ok n
  | .float (.infinite _) => .error .overflow
  | .float x =>
    match x.truncate? with
    | some n => .ok n
    | none => .error (.badValue source)
  | v =>
    match (numberText? v).bind Number.readInt? with
    | some n => .ok n
    | none => .error (.badValue source)

/-- A whole number as a fraction, unless it is too large. -/
def fractionOf (n : Int) : Except SettingsFault Binary64 :=
  match Binary64.ofInt n with
  | .infinite _ => .error .tooLarge
  | x => .ok x

/-- A value as a number. -/
def number (source : String) : Datum → Except SettingsFault Binary64
  | .bool b => .ok (Binary64.ofInt (if b then 1 else 0))
  | .int n => fractionOf n
  | .float x => .ok x
  | v =>
    match (numberText? v).bind Number.readBinary? with
    | some x => .ok x
    | none => .error (.badValue source)

/-- A member of a section, if it is there. -/
def memberOf {α : Type} (ms : Members) (key : String)
    (convert : Datum → Except SettingsFault α) : Except SettingsFault (Option α) :=
  match Datum.member? key ms with
  | none => .ok none
  | some v => (convert v).map some

/-- A value as a boolean. -/
def asTruth (v : Datum) : Except SettingsFault Bool := .ok v.truth

/-- A value as the name of a log file; what does not count as true names none. -/
def logFileOf (v : Datum) : Option String := if v.truth then some v.plain else none

/-- What the sections of a file say about the settings. -/
def sectionLayer (data : Members) (source : String) : Except SettingsFault Layer := do
  let parallel ← sectionMembers data source "parallel"
  let validation ← sectionMembers data source "validation"
  let extraction ← sectionMembers data source "extraction"
  let cache ← sectionMembers data source "cache"
  let logging ← sectionMembers data source "logging"
  let count := wholeNumber source
  return {
    parallel := ← memberOf parallel "enabled" asTruth
    maxWorkers := ← memberOf parallel "max_workers" count
    fileTimeout := ← memberOf parallel "file_timeout_seconds" fun v =>
      (number source v).map Seconds.fraction
    validateBindings := ← memberOf validation "bindings" asTruth
    extractionAdvice := ← memberOf extraction "enabled" asTruth
    maxFileLines := ← memberOf extraction "max_file_lines" count
    maxBlockLines := ← memberOf extraction "max_jsx_block_lines" count
    minDuplicateLines := ← memberOf extraction "min_duplicate_block_lines" count
    treeCache := ← memberOf cache "enabled" asTruth
    treeCacheSize := ← memberOf cache "size" count
    logLevel := (Datum.member? "level" logging).map fun v => Text.upper v.plain
    logFile := (Datum.member? "file" logging).bind logFileOf }

/-- The settings of a file with sections; what they do not mention is standard. -/
def ofSections (data : Members) (source : String) : Except SettingsFault Settings := do
  standard.merge (← sectionLayer data source)

end SourceChange.Settings
