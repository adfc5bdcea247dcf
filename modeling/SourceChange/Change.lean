import SourceChange.Language
import SourceChange.Operation.Read

/-!
Requests to change files.

A `ChangeSet` is a list of `FileChange`s, each an action on a path with the operations to carry out. A
file change whose operations cannot all be read is kept, with the first fault; a change set in which
some entry is no file change at all is refused.
-/

namespace SourceChange

/-- What happens to a path. -/
inductive FileAction where
  | create
  | modify
  | delete
  deriving DecidableEq, Repr

namespace FileAction

/-- The name of an action. -/
def name : FileAction → String
  | create => "CREATE"
  | modify => "MODIFY"
  | delete => "DELETE"

/-- The action with a name. -/
def ofName? (s : String) : Option FileAction := [create, modify, delete].find? (·.name == s)

end FileAction

/-- An operation that could not be read. -/
structure PayloadError where
  index : Nat
  fault : PayloadFault
  deriving Repr

/-- The operations for one path. -/
structure FileChange where
  path : String
  action : FileAction
  operations : List Operation
  /-- The text to start with, for a file that is created. -/
  content : Option String
  payloadError : Option PayloadError
  deriving Repr

/-- Why a change set cannot be read. -/
inductive ReadFault where
  | fault (fault : PayloadFault)
  /-- An entry of the list of files is no object. -/
  | entryNotObject
  deriving Repr

namespace FileChange

/-- The language of the changed file. -/
def language (c : FileChange) : Language := .ofPath c.path

/-- Reads operations up to the first that cannot be read; `index` is the place of the first one. -/
def readOperations (index : Nat) : List Json → List Operation × Option PayloadError
  | [] => ([], none)
  | v :: vs =>
    match Operation.read v with
    | .error fault => ([], some ⟨index, fault⟩)
    | .ok op =>
      let (ops, e) := readOperations (index + 1) vs
      (op :: ops, e)

/-- Reads the path of a file change. -/
def readPath (ms : List (String × Json)) : Except PayloadFault String :=
  match ms.lookup "path" with
  | some (.string p) => if p == "" then .error .noPath else .ok p
  | _ => .error .noPath

/-- Reads the action of a file change. -/
def readAction (path : String) (ms : List (String × Json)) : Except PayloadFault FileAction :=
  let value := ms.lookup "action"
  match FileAction.ofName? (Text.upper (value.getD (.string "MODIFY")).plain) with
  | some a => .ok a
  | none => .error (.badAction (value.getD .null).shown path)

/-- The members of an object that hold the list of operations. -/
def changesOf (ms : List (String × Json)) : Json :=
  (ms.lookup "changes" <|> ms.lookup "operations").getD (.array [])

/-- Reads a file change. -/
def ofMembers (ms : List (String × Json)) : Except PayloadFault FileChange := do
  let path ← readPath ms
  let action ← readAction path ms
  match changesOf ms with
  | .array items =>
    let (operations, payloadError) := readOperations 0 items
    let content := match ms.lookup "content" with
      | some (.string s) => some s
      | _ => none
    return { path, action, operations, content, payloadError }
  | _ => throw (.changesNotList path)

/-- Reads a file change. -/
def read : Json → Except ReadFault FileChange
  | .object ms => (ofMembers ms).mapError .fault
  | _ => .error .entryNotObject

end FileChange

/-- File changes submitted together. -/
structure ChangeSet where
  files : List FileChange
  summary : String
  /-- The name of the change set, if it was given one. -/
  id : Option String
  deriving Repr

namespace ChangeSet

/-- Reads a change set. -/
def read : Json → Except ReadFault ChangeSet
  | .object ms =>
    match ms.lookup "files" with
    | some (.array items) => do
      let id := match ms.lookup "id" with
        | some (.string s) => if s == "" then none else some s
        | _ => none
      let files ← items.mapM FileChange.read
      return ⟨files, ((ms.lookup "summary").getD (.string "")).plain, id⟩
    | _ => .error (.fault .noFiles)
  | _ => .error (.fault .envelopeNotObject)

end ChangeSet

end SourceChange
