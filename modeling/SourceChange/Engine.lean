import SourceChange.Advice.Analysis
import SourceChange.FileRun
import SourceChange.Settings.Basic

/-!
Applying change sets.

The changes of one path run one after the other, each on what the one before it published; different
paths do not touch each other. What fails is recorded and stops nothing else. The results are put
together in the order in which the paths first occur.
-/

namespace SourceChange

open Source

/-- Texts by path. -/
abbrev Files := List (String × String)

namespace Files

/-- Sets the text of a path; a path that is present keeps its place. -/
def set (path content : String) : Files → Files
  | [] => [(path, content)]
  | (p, c) :: rest => if p == path then (p, content) :: rest else (p, c) :: set path content rest

/-- Removes a path. -/
def erase (path : String) (files : Files) : Files := files.filter (·.1 != path)

/-- Sets the texts of several paths, one after the other. -/
def setAll (files : Files) (new : Files) : Files := new.foldl (fun fs (p, c) => fs.set p c) files

end Files

/-- The new text of a path. -/
structure ModifiedFile where
  path : String
  content : String
  action : FileAction
  deriving DecidableEq, Repr

/-- What became of a change set. -/
structure ApplyResult where
  modified : List ModifiedFile
  errors : List FileError
  warnings : List Warning
  suggestions : List Advice.Suggestion
  /-- The name of the change set; one that cannot be read has none. -/
  id : Option String
  deriving Repr

namespace ApplyResult

/-- Whether every change was carried out. -/
def success (r : ApplyResult) : Bool := r.errors.isEmpty

/-- The files after the modified ones are written back. -/
def publish (r : ApplyResult) (files : Files) : Files :=
  r.modified.foldl (fun fs m => if m.action == .delete then fs.erase m.path else fs.set m.path m.content)
    files

end ApplyResult

/-- How the work on a path ends. -/
inductive Fate where
  | finishes
  /-- The time runs out. -/
  | hangs
  /-- The work breaks off with a message, or the wait for it does: a time may be too long to be waited for. -/
  | crashes (text : String)

/-- What happens around the engine while it works. -/
structure Circumstances where
  fate : String → Fate
  advisorFails : Bool

namespace Circumstances

/-- Nothing goes wrong. -/
def calm : Circumstances := ⟨fun _ => .finishes, false⟩

end Circumstances

/-- What the changes of one path produced. -/
structure PathResult where
  path : String
  start : Option String
  content : Option String
  outcomes : List FileOutcome
  errors : List FileError

namespace PathResult

/-- Whether some change was carried out. -/
def changed (r : PathResult) : Bool := r.outcomes.any (·.succeeded)

/-- The files that the changes created; of two with the same path the later counts. -/
def created (r : PathResult) : Files :=
  (r.outcomes.filter (·.succeeded)).foldl (fun fs o => fs.setAll o.created) []

/-- The new text of the path, if there is anything to publish. -/
def published (r : PathResult) : Option ModifiedFile :=
  match r.content, r.start with
  | none, none => none
  | none, some _ => some ⟨r.path, "", .delete⟩
  | some c, none => some ⟨r.path, c, .create⟩
  | some c, some _ => some ⟨r.path, c, .modify⟩

/-- The warnings of the changes that were carried out. -/
def warnings (r : PathResult) : List Warning :=
  (r.outcomes.filter (·.succeeded)).flatMap (·.warnings)

end PathResult

/-- The changes of one path. -/
structure Group where
  path : String
  changes : List FileChange

namespace Group

/-- Takes a change into the group of its path; a path that is new gets a group at the end. -/
def add (c : FileChange) : List Group → List Group
  | [] => [⟨c.path, [c]⟩]
  | g :: gs => if g.path == c.path then { g with changes := g.changes ++ [c] } :: gs else g :: add c gs

/-- The changes by path, in the order in which the paths first occur. -/
def ofChanges (changes : List FileChange) : List Group := changes.foldl (fun gs c => add c gs) []

/-- Runs changes one after the other. -/
def runFrom (mode : RunMode) (reserved : List String) : List FileChange → PathResult →
    StateM Reader PathResult
  | [], r => return r
  | c :: cs, r => do
    let o ← c.run mode r.content reserved
    runFrom mode reserved cs
      { r with
        content := if o.succeeded then o.content else r.content
        outcomes := r.outcomes ++ [o]
        errors := r.errors ++ o.error.toList }

/-- Runs the changes of a path. -/
def run (g : Group) (mode : RunMode) (reserved : List String) (start : Option String) :
    StateM Reader PathResult :=
  runFrom mode reserved g.changes ⟨g.path, start, start, [], []⟩

/-- The result of a path whose changes all failed for the same reason. -/
def failed (g : Group) (start : Option String) (failure : Failure) : PathResult :=
  ⟨g.path, start, start, [], g.changes.map fun _ => ⟨g.path, none, failure⟩⟩

/-- The failure of a path whose time ran out. -/
def timeout (g : Group) (settings : Settings) : Failure :=
  let seconds := settings.fileTimeout.value.times g.changes.length
  .timedOut g.path (seconds.fixedText 1)

/-- Runs the changes of a path as its fate will have it. -/
def runUnder (g : Group) (settings : Settings) (fate : Fate) (reserved : List String)
    (start : Option String) : StateM Reader PathResult :=
  match fate with
  | .finishes => g.run (.plain settings.validateBindings) reserved start
  | .hangs => return g.failed start (g.timeout settings)
  | .crashes text => return g.failed start (.crashed text)

end Group

/-- The results put together so far, and which path created which file. -/
structure Assembly where
  modified : List ModifiedFile
  errors : List FileError
  warnings : List Warning
  creators : List (String × String)

namespace Assembly

/-- Adds the result of a path. A path that creates a file that another path has created is withdrawn
as a whole. -/
def add (a : Assembly) (r : PathResult) : Assembly :=
  let errors := a.errors ++ r.errors
  let created := r.created
  match created.findSome? fun (p, _) => (a.creators.lookup p).map fun other => (p, other) with
  | some (p, other) =>
    { a with errors := errors ++ [⟨r.path, none, .createdTwice p other r.path⟩] }
  | none =>
    let a := { a with errors, creators := a.creators ++ created.map fun (p, _) => (p, r.path) }
    if r.changed then
      { a with
        modified := a.modified ++ r.published.toList ++ created.map fun (p, c) => ⟨p, c, .create⟩
        warnings := a.warnings ++ r.warnings }
    else a

/-- The results of several paths put together. -/
def ofResults (results : List PathResult) : Assembly := results.foldl add ⟨[], [], [], []⟩

end Assembly

/-- A reader as the settings ask for it. -/
def Settings.reader (s : Settings) : Reader :=
  if s.treeCache then .caching s.treeCacheSize.toNat else .plain

/-- The limits of the advice. -/
def Settings.limits (s : Settings) : Advice.Limits :=
  ⟨s.maxFileLines.toNat, s.maxBlockLines.toNat, s.minDuplicateLines.toNat⟩

namespace ChangeSet

/-- The paths that created files must not take. -/
def reserved (c : ChangeSet) (files : Files) : List String :=
  files.map (·.1) ++ c.files.map (·.path)

/-- The results of all paths. -/
def runGroups (c : ChangeSet) (settings : Settings) (around : Circumstances) (files : Files) :
    StateM Reader (List PathResult) :=
  (Group.ofChanges c.files).mapM fun g =>
    g.runUnder settings (around.fate g.path) (c.reserved files) (files.lookup g.path)

/-- Advice on the files that a change set leaves behind. -/
def advise (settings : Settings) (around : Circumstances) (modified : List ModifiedFile) :
    StateM Reader (List Advice.Suggestion) :=
  if settings.extractionAdvice && !around.advisorFails then
    Advice.suggestAll settings.limits
      ((modified.filter (·.action != .delete)).map fun m => (m.path, m.content))
  else return []

/-- Applies a change set to files. A change set without a name gets the name `fresh`. -/
def apply (c : ChangeSet) (settings : Settings) (around : Circumstances) (fresh : String)
    (files : Files) : StateM Reader ApplyResult := do
  let a := Assembly.ofResults (← c.runGroups settings around files)
  let suggestions ← if a.errors.isEmpty then advise settings around a.modified else pure []
  return ⟨a.modified, a.errors, a.warnings, suggestions, some (c.id.getD fresh)⟩

end ChangeSet

/-- The result for a change set that cannot be read. -/
def ApplyResult.rejected (fault : PayloadFault) : ApplyResult :=
  ⟨[], [⟨"", none, .payload fault⟩], [], [], none⟩

/-- Reads a change set and applies it. Only an entry that is no object leaves no result. -/
def applyPayload (payload : Json) (settings : Settings) (around : Circumstances) (fresh : String)
    (files : Files) : StateM Reader (Except ReadFault ApplyResult) := do
  match ChangeSet.read payload with
  | .ok c => return .ok (← c.apply settings around fresh files)
  | .error (.fault f) => return .ok (.rejected f)
  | .error .entryNotObject => return .error .entryNotObject

end SourceChange
