import SourceChange.Source.Function
import SourceChange.Text.Indent

/-!
The bodies of component functions: how they are laid out and what they declare.
-/

namespace SourceChange.Source

open Syntax

/-- The statements of a block, without the comments. -/
def blockStatements (block : Node) : List Node := block.parts

/-- How the statements of a function are laid out. -/
structure Layout where
  /-- The indentation of a statement. -/
  indent : String
  /-- One level of indentation. -/
  unit : String
  deriving Repr

namespace Tree

/-- The layout of a function's statements: that of the first one, or one level more than the function's
own line. -/
def layout (t : Tree) (f : Function) : Except Failure Layout := do
  let unit := Text.indentUnit t.text
  let body ← t.resolve f.body
  if body.is .statementBlock then
    match blockStatements body with
    | s :: _ => return ⟨t.indentAt s.start, unit⟩
    | [] => return ⟨t.indentAt body.start ++ unit, unit⟩
  else
    let statement ← t.resolve f.statement
    return ⟨t.indentAt statement.start ++ unit, unit⟩

/-- The names declared at the top of a function's body, parameters included. -/
def namesIn (t : Tree) (f : Function) : Except Failure (List String) := do
  let body ← t.resolveVisit f.body
  if body.node.is .statementBlock then return t.declaredNames body.node body.parent?
  else
    match f.parameters with
    | none => return []
    | some h =>
      let ps ← t.resolve h
      return t.patternNames (some ps)

/-- Refuses names that a function's body declares already. -/
def checkNames (t : Tree) (f : Function) (names : List String) : Except Failure Unit := do
  let declared ← t.namesIn f
  let taken := names.filter declared.contains
  if taken.isEmpty then return ()
  else
    let owner := f.name.getD ""
    throw (.alreadyDeclared taken (if owner == "" then "the component" else owner))

end Tree

end SourceChange.Source
