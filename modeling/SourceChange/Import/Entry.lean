import SourceChange.Operation.Basic
import SourceChange.Text.Basic

/-!
The written form of imports.
-/

namespace SourceChange.Import

/-- Cuts a text at the first `as` that stands between blanks. -/
def cutAs? : List Char → Option (List Char × List Char)
  | [] => none
  | c :: cs =>
    let later := (cutAs? cs).map fun (u, v) => (c :: u, v)
    if Text.isBlank c then
      match Text.stripStart cs with
      | 'a' :: 's' :: d :: rest =>
        if Text.isBlank d then some ([], Text.stripStart rest) else later
      | _ => later
    else later

/-- An entry in the braces of an import: a name and its alias. A name is no alias of itself. -/
def splitEntry (entry : String) : String × Option String :=
  let cs := Text.strip entry.toList
  match cutAs? cs with
  | some (name, newName) =>
    (String.ofList name, if newName == name then none else some (String.ofList newName))
  | none => (String.ofList cs, none)

/-- The name under which an entry is used. -/
def localName (entry : String) : String :=
  let (name, newName) := splitEntry entry
  match newName with
  | some a => if a == "" then name else a
  | none => name

/-- An entry with single blanks. -/
def normalEntry (entry : String) : String :=
  let (name, newName) := splitEntry entry
  Text.join " as " ((name :: newName.toList).filter (· != ""))

/-- Entries in normal form, each once. -/
def distinctEntries (entries : List String) : List String := (entries.map normalEntry).eraseDups

/-- Names in braces. -/
def braces (names : List String) : String := "\x7b " ++ Text.join ", " names ++ " \x7d"

/-- The statement that imports the default and the named bindings of a request. -/
def render (spec : ImportSpec) (quote : String) : String :=
  let source := quote ++ spec.source ++ quote
  let parts := (spec.defaultName.toList.filter (· != "")) ++
    (if spec.entries.isEmpty then [] else [braces spec.entries])
  if parts.isEmpty then "import " ++ source ++ ";"
  else "import " ++ Text.join ", " parts ++ " from " ++ source ++ ";"

/-- The statement that imports a whole module under one name. -/
def renderNamespace (name source quote : String) : String :=
  "import * as " ++ name ++ " from " ++ quote ++ source ++ quote ++ ";"

end SourceChange.Import
