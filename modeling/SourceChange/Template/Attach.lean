import SourceChange.Import.Plan
import SourceChange.Template.Module

/-!
Putting a generated module into a file.

An empty file becomes the module. Elsewhere the imports join those of the file and the declarations go
to its end; a name that the file declares already gives a warning.
-/

namespace SourceChange.Template

open Source

/-- The warnings for the names that a file declares already. -/
def collisions (path kind : String) (declared names : List String) : List String :=
  (names.filter declared.contains).map fun name =>
    "'" ++ name ++ "' is already declared in " ++ path ++ "; generated " ++ kind ++
      " code was not renamed"

/-- Merges one request after the other. -/
def mergeAll (d : Draft) : List ImportSpec → Reading Draft
  | [] => return d
  | spec :: specs => do
    let text ← Import.merge d spec
    mergeAll (d.advance text) specs

/-- The draft after a first request, which is merged into the given tree, and further ones. -/
def mergeFrom (d : Draft) (t : Tree) : List ImportSpec → Reading Draft
  | [] => return d
  | spec :: specs => do
    let text ← Import.mergeInto d t spec
    mergeAll (d.advance text) specs

/-- Joins a generated module to a file that is not empty. -/
def attach (d : Draft) (m : Module) (kind : String) : Reading (String × List String) := do
  let t ← d.tree
  let warnings := collisions d.path kind t.moduleNames m.declares
  let merged ← mergeFrom d t m.imports
  let front := String.ofList (Text.dropEndWhile (· == '\n') merged.text.toList)
  return (front ++ "\n\n" ++ m.trimmedBody ++ "\n", warnings)

/-- Puts a generated module into a draft. -/
def addModule (d : Draft) (m : Module) (kind summary : String) : Reading Outcome := do
  if Text.isBlankText d.text then return .plain (m.render "'") summary
  let (text, warnings) ← attach d m kind
  return ⟨text, [], warnings, summary⟩

/-- Adds a context to a draft. -/
def addContext (d : Draft) (c : ContextProvider) : Reading Outcome :=
  addModule d (contextModule c (Language.isTyped d.path)) "AddContextProvider"
    ("Added context provider " ++ c.context)

/-- Adds a store to a draft, or creates the file that is named for it. -/
def addStore (d : Draft) (s : Store) : Reading Outcome :=
  let file := nameOr s.file d.path
  if file == d.path then
    addModule d (storeModule s (Language.isTyped d.path)) "AddZustandStore"
      ("Added zustand store " ++ s.name)
  else
    return ⟨d.text, [(file, (storeModule s (Language.isTyped file)).render "'")], [],
      "Created zustand store " ++ s.name ++ " in " ++ file⟩

end SourceChange.Template
