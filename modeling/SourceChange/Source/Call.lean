import SourceChange.Source.Declaration

/-!
Calls of hooks.
-/

namespace SourceChange.Source

open Syntax

/-- Names of hooks: `use` itself, or `use` followed by a capital letter or a digit. -/
def isHookName (name : String) : Bool :=
  match name.toList with
  | 'u' :: 's' :: 'e' :: rest =>
    match rest with
    | [] => true
    | c :: _ => ('A' ≤ c && c ≤ 'Z') || c.isDigit
  | _ => false

/-- A `const [state, setState] = useState(initial)` declaration. -/
structure StateVariable where
  handle : Handle
  state : String
  setter : Option String
  initial : Option String
  deriving Repr

namespace Tree

/-- The last name in what a call calls. -/
def calleeName? (t : Tree) (call : Node) : Option String :=
  match call.child? .function with
  | some f =>
    if f.is .identifier then some (t.nodeText f)
    else if f.is .memberExpression then t.roleText? f .property
    else none
  | none => none

/-- The name of the hook that an expression calls, awaited or not. -/
def hookCalled? (t : Tree) (e : Node) : Option String :=
  let call := if e.is .awaitExpression then (e.named.head?).getD e else e
  if call.is .callExpression then
    match t.calleeName? call with
    | some name => if isHookName name then some name else none
    | none => none
  else none

/-- The hook that a statement calls. -/
def hookName? (t : Tree) (statement : Node) : Option String :=
  if statement.isOneOf [.lexicalDeclaration, .variableDeclaration] then
    (statement.named.filterMap (·.child? .value)).findSome? t.hookCalled?
  else if statement.is .expressionStatement then
    (statement.named.head?).bind t.hookCalled?
  else none

/-- The state that a declarator declares. -/
def stateOf? (t : Tree) (v : Node.Visit) : Option StateVariable := do
  let name ← v.node.child? .name
  let value ← v.node.child? .value
  guard (name.is .arrayPattern && value.is .callExpression)
  guard (t.calleeName? value == some "useState")
  let elements := name.named.map fun n => t.patternNames (some n)
  let first ← elements.head?
  let state ← first.head?
  let initial := do
    let args ← value.child? .arguments
    let arg ← args.named.head?
    return t.nodeText arg
  return ⟨t.handle (v.parent?.getD v.node), state, (elements[1]?).bind List.head?, initial⟩

/-- The state declarations of a module, in document order. -/
def stateHooks (t : Tree) : List StateVariable :=
  (t.rootD.visits.filter (·.node.is .variableDeclarator)).filterMap t.stateOf?

end Tree

end SourceChange.Source
