import SourceChange.Change
import SourceChange.Operation.Apply

/-!
Running one file change.

The operations run in order, each on the text that the one before it left. Only if all succeed and the
result stands the final checks is anything to be published; otherwise the outcome holds the failure.
-/

namespace SourceChange

open Source

/-- A failure of a file change; `index` is the place of the operation that failed, if one did. -/
structure FileError where
  path : String
  index : Option Nat
  failure : Failure
  deriving Repr

/-- A note on a file change. -/
structure Warning where
  path : String
  index : Option Nat
  message : String
  deriving DecidableEq, Repr

/-- What became of a file change. -/
structure FileOutcome where
  path : String
  action : FileAction
  /-- The new text; a deleted file and a failed change have none. -/
  content : Option String
  error : Option FileError
  created : List (String × String)
  warnings : List Warning
  summaries : List String
  deriving Repr

namespace FileOutcome

/-- Whether the change was carried out. -/
def succeeded (o : FileOutcome) : Bool := o.error.isNone

end FileOutcome

/-- What operations have produced so far. -/
structure Progress where
  text : String
  created : List (String × String)
  warnings : List Warning
  summaries : List String

/-- How file changes are run. -/
structure RunMode where
  /-- Whether names that are declared twice are refused. -/
  validateBindings : Bool
  /-- The text of a failure that interrupts the operation at an index, from outside. -/
  interruption : Nat → Option String

namespace RunMode

/-- Runs without interruptions. -/
def plain (validateBindings : Bool) : RunMode := ⟨validateBindings, fun _ => none⟩

end RunMode

namespace FileChange

/-- The outcome of a change that failed; the summaries of what was done before stay. -/
def failed (c : FileChange) (index : Option Nat) (failure : Failure) (summaries : List String) :
    FileOutcome :=
  ⟨c.path, c.action, none, some ⟨c.path, index, failure⟩, [], [], summaries⟩

/-- The text that a change starts from. -/
def startText (c : FileChange) (start : Option String) : Except Failure String :=
  match c.action, start with
  | .create, some _ => .error (.fileExists c.path)
  | .create, none => .ok (c.content.getD "")
  | _, some text => .ok text
  | _, none => .error (.fileMissing c.path)

/-- The redeclarations in the text that a change starts from, which has to be free of syntax errors;
plain text has none. -/
def baseline (c : FileChange) (text : String) : Reading (Option (List String)) := do
  if c.language == .plaintext then return none
  let t ← Reading.strictFile c.path c.language text
  return some t.redeclarations

/-- Refuses created files whose path is taken. -/
def checkCreated (reserved : List String) (done created : List (String × String)) :
    Except Failure Unit :=
  created.forM fun (path, _) =>
    if reserved.contains path || done.any (·.1 == path) then .error (.createdExists path)
    else .ok ()

/-- Carries out one operation. -/
def step (c : FileChange) (mode : RunMode) (reserved : List String) (index : Nat) (op : Operation)
    (p : Progress) : Reading Progress := do
  match mode.interruption index with
  | some text => throw (.unexpected text)
  | none => pure ()
  let outcome ← op.apply ⟨c.path, c.language, p.text⟩
  checkCreated reserved p.created outcome.created
  return {
    text := outcome.text
    created := p.created ++ outcome.created
    warnings := p.warnings ++ outcome.warnings.map fun m => ⟨c.path, some index, m⟩
    summaries := p.summaries ++ [outcome.summary] }

/-- Carries out operations up to the first that fails. -/
def steps (c : FileChange) (mode : RunMode) (reserved : List String) (index : Nat) :
    List Operation → Progress → StateM Reader (Progress × Option (Nat × Failure))
  | [], p => return (p, none)
  | op :: ops, p => do
    match ← (step c mode reserved index op p).run with
    | .ok p => steps c mode reserved (index + 1) ops p
    | .error e => return (p, some (index, e))

/-- The names that are declared more often than before, sorted. -/
def introduced (before after : List String) : List String :=
  Text.sorted ((after.eraseDups).filter fun n => before.count n < after.count n)

/-- Refuses a result with syntax errors or, unless they were there before, with names declared
twice. -/
def checkResult (c : FileChange) (mode : RunMode) (before : Option (List String)) (text : String) :
    Reading Unit := do
  if c.language == .plaintext then return ()
  let t ← Reading.lenientFile c.path c.language text
  if t.hasErrors then throw .resultBroken
  if mode.validateBindings then
    match before with
    | none => return ()
    | some names =>
      let new := introduced names t.redeclarations
      if !new.isEmpty then throw (.duplicateNames new)

/-- Refuses created files with syntax errors. -/
def checkCreatedTexts : List (String × String) → Reading Unit
  | [] => return ()
  | (path, content) :: rest => do
    let language := Language.ofPath path
    if language != .plaintext then
      let t ← Reading.lenient language content
      if t.hasErrors then throw (.createdBroken path)
    checkCreatedTexts rest

/-- The final checks. -/
def checkAll (c : FileChange) (mode : RunMode) (before : Option (List String)) (p : Progress) :
    Reading Unit := do
  checkResult c mode before p.text
  checkCreatedTexts p.created

/-- Runs the operations of a change from a text on. -/
def runFrom (c : FileChange) (mode : RunMode) (reserved : List String) (text : String) :
    StateM Reader FileOutcome := do
  match ← (c.baseline text).run with
  | .error e => return c.failed none e []
  | .ok before =>
    match ← c.steps mode reserved 0 c.operations ⟨text, [], [], []⟩ with
    | (p, some (index, e)) => return c.failed (some index) e p.summaries
    | (p, none) =>
      match ← (c.checkAll mode before p).run with
      | .error e => return c.failed none e p.summaries
      | .ok _ => return ⟨c.path, c.action, some p.text, none, p.created, p.warnings, p.summaries⟩

/-- Runs a change on the text of its path, if there is one. Created files must not take a reserved
path. -/
def run (c : FileChange) (mode : RunMode) (start : Option String) (reserved : List String) :
    StateM Reader FileOutcome :=
  match c.payloadError with
  | some e => return c.failed (some e.index) (.payload e.fault) []
  | none =>
    if c.action == .delete && !c.operations.isEmpty then
      return c.failed (some 0) .deleteWithOperations []
    else
      match c.startText start with
      | .error e => return c.failed none e []
      | .ok text =>
        if c.action == .delete then return ⟨c.path, c.action, none, none, [], [], []⟩
        else c.runFrom mode reserved text

end FileChange

end SourceChange
