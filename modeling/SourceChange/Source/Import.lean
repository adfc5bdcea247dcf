import SourceChange.Source.Tree

/-!
The imports of a module.
-/

namespace SourceChange.Source

open Syntax

/-- How an import binds a name. -/
inductive ImportForm where
  | default
  | namespace
  | named
  deriving DecidableEq, Repr

/-- One name that an import binds. -/
structure ImportedName where
  name : String
  newName : Option String
  form : ImportForm
  deriving DecidableEq, Repr

namespace ImportedName

/-- The name inside the importing module. -/
def localName (s : ImportedName) : String := s.newName.getD s.name

/-- The written form of a named import. -/
def entry (s : ImportedName) : String :=
  match s.newName with
  | some a => s.name ++ " as " ++ a
  | none => s.name

end ImportedName

/-- One import statement. -/
structure Import where
  handle : Handle
  source : String
  names : List ImportedName
  isTypeOnly : Bool
  deriving DecidableEq, Repr

namespace Import

/-- The default binding. -/
def default? (i : Import) : Option ImportedName := i.names.find? (·.form == .default)

/-- The binding of the whole module. -/
def namespace? (i : Import) : Option ImportedName := i.names.find? (·.form == .namespace)

/-- The bindings in braces. -/
def named (i : Import) : List ImportedName := i.names.filter (·.form == .named)

/-- The names inside the importing module. -/
def locals (i : Import) : List String := i.names.map (·.localName)

end Import

namespace Tree

/-- The clause of an import statement that lists its bindings. -/
def importClause? (statement : Node) : Option Node := statement.named.find? (·.is .importClause)

/-- The names that one part of an import clause binds. -/
def importedNames (t : Tree) (part : Node) : List ImportedName :=
  if part.is .identifier then [⟨t.nodeText part, none, .default⟩]
  else if part.is .namespaceImport then
    match part.named.find? (·.is .identifier) with
    | some n => [⟨t.nodeText n, none, .namespace⟩]
    | none => []
  else if part.is .namedImports then
    (part.named.filter (·.is .importSpecifier)).map fun s =>
      ⟨(t.roleText? s .name).getD (t.nodeText s), t.roleText? s .newName, .named⟩
  else []

/-- What an import statement says. -/
def importOf (t : Tree) (statement : Node) : Import :=
  let source := statement.child? .source <|> statement.named.find? (·.is .stringLiteral)
  let parts := ((importClause? statement).map Node.named).getD []
  { handle := t.handle statement
    source := (source.map t.stringValue).getD ""
    names := parts.flatMap t.importedNames
    isTypeOnly := statement.hasToken "type" }

/-- The import statements of a module, in document order. -/
def imports (t : Tree) : List Import :=
  (t.rootD.named.filter (·.is .importStatement)).map t.importOf

end Tree

end SourceChange.Source
