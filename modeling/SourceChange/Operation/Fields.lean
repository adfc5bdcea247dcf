import SourceChange.Failure
import SourceChange.Operation.Names

/-!
Reading the fields of a request.

A field can be spelled in several ways; the first spelling that is present counts. The value is then
converted, and what is wrong with it is reported together with the type and the field.
-/

namespace SourceChange

/-- A field: the spellings of its key, the preferred one first. -/
structure Field where
  key : String
  others : List String

namespace Field

/-- A field with one spelling. -/
def plain (key : String) : Field := ⟨key, []⟩

/-- A field whose words can also be divided by underscores. -/
def words (key underscored : String) : Field := ⟨key, [underscored]⟩

/-- The value of a field. -/
def find? (f : Field) (members : List (String × Json)) : Option Json :=
  (f.key :: f.others).findSome? fun k => members.lookup k

end Field

/-- An object that is read as a value of the named type. -/
structure Payload where
  type : String
  members : List (String × Json)

namespace Payload

/-- A field that must be present. -/
def required {α : Type} (p : Payload) (f : Field) (convert : Json → Except PayloadFault α) :
    Except PayloadFault α :=
  match f.find? p.members with
  | none => .error (.missingField p.type f.key)
  | some v => (convert v).mapError (.within p.type f.key)

/-- A field with a default value. -/
def withDefault {α : Type} (p : Payload) (f : Field) (default : α)
    (convert : Json → Except PayloadFault α) : Except PayloadFault α :=
  match f.find? p.members with
  | none => .ok default
  | some v => (convert v).mapError (.within p.type f.key)

/-- A field that may be absent or null. -/
def optional {α : Type} (p : Payload) (f : Field) (convert : Json → Except PayloadFault α) :
    Except PayloadFault (Option α) :=
  match f.find? p.members with
  | none => .ok none
  | some .null => .ok none
  | some v => ((convert v).map some).mapError (.within p.type f.key)

end Payload

namespace Convert

/-- Source text: a string as it is, any other scalar as it is written in source. -/
def text : Json → Except PayloadFault String
  | .string s => .ok s
  | .bool b => .ok (if b then "true" else "false")
  | .null => .ok "null"
  | .int n => .ok (toString n)
  | .float x => .ok x.sourceText
  | v => .error (.notScalar v.kindName)

/-- A boolean. -/
def boolean : Json → Except PayloadFault Bool
  | .bool b => .ok b
  | v => .error (.notBoolean v.kindName)

/-- A list of source texts; a single string stands for the list of it. -/
def texts : Json → Except PayloadFault (List String)
  | .string s => .ok [s]
  | .array items => items.mapM text
  | v => .error (.notList v.kindName)

/-- An object with source texts. -/
def textMembers : Json → Except PayloadFault (List (String × String))
  | .object ms => ms.mapM fun (k, v) => (text v).map fun t => (k, t)
  | v => .error (.notObject v.kindName)

/-- An object with any values. -/
def members : Json → Except PayloadFault (List (String × Json))
  | .object ms => .ok ms
  | v => .error (.notObject v.kindName)

/-- A nested object of the named type. -/
def record {α : Type} (type : String) (read : Payload → Except PayloadFault α) :
    Json → Except PayloadFault α
  | .object ms => read ⟨type, ms⟩
  | _ => .error (.notRecord type)

/-- A list of nested objects of the named type. -/
def records {α : Type} (type : String) (read : Payload → Except PayloadFault α) :
    Json → Except PayloadFault (List α)
  | .array items => items.mapM (record type read)
  | _ => .error (.notRecords type)

/-- One of several named values. -/
def choice {α : Type} (values : List (String × α)) (v : Json) : Except PayloadFault α :=
  let fault := PayloadFault.notOneOf v.shown (values.map (·.1))
  match v with
  | .string s =>
    match values.lookup s with
    | some x => .ok x
    | none => .error fault
  | _ => .error fault

end Convert

namespace Require

/-- Refuses what is no name of a variable. -/
def identifier (owner label value : String) : Except PayloadFault Unit :=
  if isIdentifier value then .ok () else .error (.notIdentifier owner label value)

/-- Refuses an empty text. -/
def nonempty (owner label value : String) : Except PayloadFault Unit :=
  if value == "" then .error (.emptyText owner label) else .ok ()

/-- Refuses, for the given reason, what does not satisfy a condition. -/
def that (condition : Bool) (fault : PayloadFault) : Except PayloadFault Unit :=
  if condition then .ok () else .error fault

end Require

end SourceChange
