import SourceChange.Engine

/-!
Results as JSON.
-/

namespace SourceChange

/-- An index, or null. -/
def Json.ofIndex : Option Nat → Json
  | some n => .int n
  | none => .null

/-- A failure as JSON. -/
def FileError.json (e : FileError) : Json :=
  .object [("file", .string e.path), ("opIndex", .ofIndex e.index),
    ("kind", .string e.failure.kind.name), ("message", .string e.failure.message)]

/-- A warning as JSON. -/
def Warning.json (w : Warning) : Json :=
  .object [("file", .string w.path), ("opIndex", .ofIndex w.index), ("message", .string w.message)]

/-- A modified file as JSON. -/
def ModifiedFile.json (m : ModifiedFile) : Json :=
  .object [("path", .string m.path), ("content", .string m.content), ("action", .string m.action.name)]

/-- A suggestion as JSON. -/
def Advice.Suggestion.json (s : Advice.Suggestion) : Json :=
  .object
    [("filePath", .string s.path), ("message", .string s.message), ("reason", .string s.reason),
     ("componentName", .string s.component), ("lineStart", .int s.firstLine),
     ("lineEnd", .int s.lastLine), ("complexity", .string s.complexity),
     ("estimatedProps", .array (s.props.map .string))]

/-- A result as JSON. -/
def ApplyResult.json (r : ApplyResult) : Json :=
  .object
    [("success", .bool r.success),
     ("changeSetId", match r.id with
       | some s => .string s
       | none => .null),
     ("modifiedFiles", .array (r.modified.map (·.json))),
     ("errors", .array (r.errors.map (·.json))),
     ("warnings", .array (r.warnings.map (·.json))),
     ("extractionSuggestions", .array (r.suggestions.map (·.json)))]

end SourceChange
