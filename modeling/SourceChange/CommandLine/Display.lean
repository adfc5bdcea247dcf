import SourceChange.Disk.Basic
import SourceChange.Engine
import SourceChange.Json.Value
import SourceChange.Safety
import SourceChange.Text.Basic

/-!
What a terminal shows: lines with markup, and tables, those of results among them. Texts from outside are
made safe first: control characters would reach the terminal, and brackets would count as markup. A text
with markup that the console cannot show ends the run.
-/

namespace SourceChange.CommandLine

/-- Something that is printed. -/
inductive Printed where
  | line (text : String)
  | table (title : String) (columns : List String) (rows : List (List String))
  /-- A table of syntax errors; which ones there are is not reported. -/
  | syntaxErrors (file : String)
  deriving DecidableEq, Repr

/-- The texts of what is printed, cell by cell. -/
def Printed.texts : Printed → List String
  | line text => [text]
  | table title columns rows => (title :: columns) ++ rows.flatten
  | syntaxErrors file => ["Syntax errors in " ++ file]

/-- Control characters other than the tab and the line feed. -/
def isControl (c : Char) : Bool :=
  let n := c.toNat
  n ≤ 0x08 || (0x0B ≤ n && n ≤ 0x1F) || n == 0x7F

/-- A text without control characters; one that has some is withheld. -/
def sanitize (s : String) : String := if s.toList.any isControl then "[REDACTED]" else s

/-- Characters that the name of a tag starts with. -/
def startsTag (c : Char) : Bool := ('a' ≤ c && c ≤ 'z') || c == '#' || c == '/' || c == '@'

/-- What follows the opening bracket of a tag, up to the closing one. -/
def tagBody? : List Char → Option (List Char)
  | [] => none
  | c :: cs =>
    if c == ']' then some [c]
    else if c == '[' then none
    else (tagBody? cs).map (c :: ·)

/-- The tag at the front of a text. -/
def tag? : List Char → Option (List Char)
  | '[' :: c :: cs => if startsTag c then (tagBody? cs).map fun t => '[' :: c :: t else none
  | _ => none

/-- Puts a backslash before every tag, and doubles those that stand there already; `slashes` counts the
ones just read. -/
def escapeFrom (slashes : Nat) : List Char → List Char
  | [] => List.replicate slashes '\\'
  | c :: cs =>
    if c == '\\' then escapeFrom (slashes + 1) cs
    else
      let count := if (tag? (c :: cs)).isSome then 2 * slashes + 1 else slashes
      List.replicate count '\\' ++ c :: escapeFrom 0 cs

/-- A text that no markup is read into. A single backslash at its end is doubled. -/
def escape (s : String) : String :=
  let cs := escapeFrom 0 s.toList
  let last := cs.reverse.takeWhile (· == '\\')
  String.ofList (if last.length == 1 then cs ++ ['\\'] else cs)

/-- A text that is safe to print. -/
def safe (s : String) : String := escape (sanitize s)

/-- The number of lines of a content; an empty one has none. -/
def lineCount (content : String) : Nat :=
  if content == "" then 0 else content.toList.count '\n' + 1

/-- The place of an operation as a cell. -/
def indexCell : Option Nat → String
  | none => "-"
  | some n => toString n

/-- A table, unless it has no rows. -/
def tableOf (title : String) (columns : List String) (rows : List (List String)) : List Printed :=
  if rows.isEmpty then [] else [.table title columns rows]

/-- The notes on what a change set brings into a file that was not in it before. -/
def securityNotes (earlier : Files) (m : ModifiedFile) : List (String × String) :=
  let before := Safety.notes ((earlier.lookup m.path).getD "")
  ((Safety.notes m.content).filter fun n => !before.contains n).map (m.path, ·)

/-- The table of modified files. -/
def modifiedTable (r : ApplyResult) : List Printed :=
  tableOf "Modified files" ["Path", "Action", "Lines"]
    (r.modified.map fun m => [safe m.path, m.action.name, toString (lineCount m.content)])

/-- The table of errors. -/
def errorTable (r : ApplyResult) : List Printed :=
  tableOf "Errors" ["File", "Op", "Kind", "Message"]
    (r.errors.map fun e =>
      [safe e.path, indexCell e.index, e.failure.kind.name, safe e.failure.message])

/-- The table of warnings and notes. -/
def warningTable (r : ApplyResult) (earlier : Files) : List Printed :=
  tableOf "Warnings" ["File", "Op", "Message"]
    (r.warnings.map (fun w => [safe w.path, indexCell w.index, safe w.message]) ++
      (r.modified.flatMap (securityNotes earlier)).map fun (path, note) =>
        [safe path, "-", "[yellow]security:[/yellow] " ++ note])

/-- At most five props. -/
def propsCell (props : List String) : String :=
  Text.join ", " (props.take 5) ++ (if 5 < props.length then "..." else "")

/-- The table of suggestions. -/
def suggestionTable (suggestions : List Advice.Suggestion) : List Printed :=
  tableOf "Extraction suggestions" ["File", "Lines", "Component", "Complexity", "Reason", "Props"]
    (suggestions.map fun s =>
      [safe s.path, toString s.firstLine ++ "-" ++ toString s.lastLine, s.component, s.complexity,
       s.reason, propsCell s.props])

/-- All tables of a result. -/
def resultTables (r : ApplyResult) (earlier : Files) : List Printed :=
  modifiedTable r ++ errorTable r ++ warningTable r earlier ++ suggestionTable r.suggestions

/-! ### What a run of the command line leaves behind -/

/-- What a run can break off at without a word. -/
inductive Crash where
  /-- An entry of a change set is no object. -/
  | entryNotObject
  /-- A file holds bytes that are no text. -/
  | notText
  /-- A file cannot be written. -/
  | cannotWrite
  /-- A file cannot be written, and the temporary file stays. -/
  | cannotClear
  /-- A file that was there is gone, or lies in no directory. -/
  | missing
  /-- A link on the way to a file leads back to itself. -/
  | circularLink
  deriving DecidableEq, Repr

/-- How a run ends. -/
inductive Ending where
  | success
  /-- What was asked for failed, and what is printed says so. -/
  | failure
  /-- The arguments are wrong. -/
  | usage
  /-- The run is refused with a message. -/
  | refused (message : String)
  | crashed (crash : Crash)
  /-- The console cannot show what is to be printed. -/
  | unprintable
  deriving DecidableEq, Repr

namespace Ending

/-- The exit status of a run. -/
def status : Ending → Nat
  | success => 0
  | usage => 2
  | failure | refused _ | crashed _ | unprintable => 1

end Ending

/-- What a run leaves behind. -/
structure Session where
  ending : Ending
  printed : List Printed
  /-- The result on standard output, where it is asked for as JSON. -/
  json : Option Json
  disk : Disk

namespace Session

/-- A run that printed nothing and changed nothing. -/
def ended (ending : Ending) (disk : Disk) : Session := ⟨ending, [], none, disk⟩

end Session

/-- What a run meets beside the files of its disk. -/
structure Host where
  /-- Whether the console can show a text with its markup. A text that closes a tag which is not open, for
  one, cannot be shown. -/
  renders : String → Bool
  /-- What a run writes into its log. -/
  log : ByteArray
  /-- What the system says of a file that it cannot open, by its path. -/
  fault : String → String

namespace Host

/-- A console that shows every text as it is, and a log that stays empty. -/
def plain : Host := ⟨fun _ => true, .empty, fun path => "cannot open " ++ Text.quote path⟩

/-- Whether the console can show all texts of something. -/
def shows (host : Host) (p : Printed) : Bool := p.texts.all host.renders

/-- Prints something before the rest of a run. What cannot be shown is not printed, not in part either, and
the run ends there, with the disk as it is. -/
def saying (host : Host) (ps : List Printed) (disk : Disk) (rest : Session) : Session :=
  if ps.all host.shows then { rest with printed := ps ++ rest.printed }
  else ⟨.unprintable, ps.takeWhile host.shows, none, disk⟩

section Saying

variable {host : Host} {ps : List Printed} {disk : Disk} {rest : Session}

theorem saying_of_all (h : ps.all host.shows = true) :
    host.saying ps disk rest = { rest with printed := ps ++ rest.printed } := if_pos h

theorem saying_of_not_all (h : ¬ ps.all host.shows = true) :
    host.saying ps disk rest = ⟨.unprintable, ps.takeWhile host.shows, none, disk⟩ := if_neg h

/-- A run that ends with success has shown everything. -/
theorem saying_of_status (h : (host.saying ps disk rest).ending.status = 0) :
    host.saying ps disk rest = { rest with printed := ps ++ rest.printed } := by
  by_cases hall : ps.all host.shows = true
  · exact saying_of_all hall
  · rw [saying_of_not_all hall] at h
    cases h

end Saying

end Host

end SourceChange.CommandLine
