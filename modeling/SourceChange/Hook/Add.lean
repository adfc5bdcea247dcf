import SourceChange.Import.Plan
import SourceChange.Operation.Basic
import SourceChange.Source.Component
import SourceChange.Source.Locate
import SourceChange.Text.Indent

/-!
Adding hooks to components.

Hooks keep an order by rank: state first, then reducers, contexts, references, memoised values and
functions, and effects last. A statement that is no hook goes after all others, before the first return.
A hook goes into the body of the component by its rank; then its function is imported from React.
-/

namespace SourceChange.Hook

/-! ### The written form of hooks -/

/-- A list of dependencies. -/
def dependencyList (dependencies : List String) : String := "[" ++ Text.join ", " dependencies ++ "]"

/-- The function of React that a hook calls. -/
def callee : Hook → String
  | .state .. => "useState"
  | .effect .. => "useEffect"
  | .ref .. => "useRef"
  | .memo .. => "useMemo"
  | .callback .. => "useCallback"
  | .reducer .. => "useReducer"

/-- The names that a hook declares. -/
def declares : Hook → List String
  | .state name setter _ _ => [name, setter]
  | .effect .. => []
  | .ref name _ => [name]
  | .memo name _ _ => [name]
  | .callback name _ _ _ => [name]
  | .reducer name dispatch _ _ _ => [name, dispatch]

/-- A call of `useEffect`. -/
def renderEffect (body : String) (dependencies : Option (List String)) (cleanup : Option String)
    (indent unit : String) : String :=
  let inner := indent ++ unit
  let bodyLines := if Text.isBlankText body then [] else [Text.statementLines body inner]
  let cleanupLines :=
    match cleanup with
    | none => []
    | some c =>
      if c == "" then []
      else
        [inner ++ "return () => \x7b", Text.statementLines c (inner ++ unit), inner ++ "\x7d;"]
  let closing :=
    match dependencies with
    | none => indent ++ "\x7d"
    | some ds => indent ++ "\x7d, " ++ dependencyList ds
  Text.join "\n" (["useEffect(() => \x7b"] ++ bodyLines ++ cleanupLines ++ [closing ++ ");"])

/-- The statement of a hook, for a place at `indent`. -/
def render (indent unit : String) : Hook → String
  | .state name setter initial type =>
    let typeArgs := match type with
      | some t => if t == "" then "" else "<" ++ t ++ ">"
      | none => ""
    "const [" ++ name ++ ", " ++ setter ++ "] = useState" ++ typeArgs ++ "(" ++ initial ++ ");"
  | .effect body dependencies cleanup => renderEffect body dependencies cleanup indent unit
  | .ref name initial => "const " ++ name ++ " = useRef(" ++ initial ++ ");"
  | .memo name computation dependencies =>
    "const " ++ name ++ " = useMemo(() => " ++ Text.reindent computation indent ++ ", " ++
      dependencyList dependencies ++ ");"
  | .callback name body params dependencies =>
    "const " ++ name ++ " = useCallback((" ++ Text.join ", " params ++ ") => \x7b\n" ++
      Text.statementLines body (indent ++ unit) ++ "\n" ++ indent ++ "\x7d, " ++
      dependencyList dependencies ++ ");"
  | .reducer name dispatch function initial _ =>
    "const [" ++ name ++ ", " ++ dispatch ++ "] = useReducer(" ++ function ++ ", " ++ initial ++ ");"

/-- The lines of one case of a reducer. -/
def renderCase (two three : String) (action : ReducerAction) : List String :=
  [two ++ "case '" ++ action.type ++ "': \x7b", Text.statementLines action.handler three,
   two ++ "\x7d"]

/-- The function of a reducer, for a place at `base`. -/
def renderReducer (name : String) (actions : List ReducerAction) (base unit : String) : String :=
  let one := base ++ unit
  let two := one ++ unit
  let three := two ++ unit
  Text.join "\n"
    (["function " ++ name ++ "(state, action) \x7b", one ++ "switch (action.type) \x7b"] ++
      actions.flatMap (renderCase two three) ++
      [two ++ "default:", three ++ "return state;", one ++ "\x7d", base ++ "\x7d"])

/-! ### Where a hook goes -/

open Source Syntax

/-- The rank of hooks that are not in the table. -/
def otherRank : Nat := 2

/-- The rank of statements that are no hooks. -/
def statementRank : Nat := 100

/-- The ranks of the hooks of React. -/
def rankTable : List (String × Nat) :=
  [("useState", 0), ("useReducer", 1), ("useContext", 2), ("useRef", 3), ("useMemo", 4),
   ("useCallback", 5), ("useEffect", 6), ("useLayoutEffect", 6)]

/-- The rank of a hook, or of no hook. -/
def rank : Option String → Nat
  | none => statementRank
  | some name => (rankTable.lookup name).getD otherRank

/-- The hooks among statements, with their ranks. -/
def rankedHooks (t : Tree) (statements : List Node) : List (Node × Nat) :=
  statements.filterMap fun s => (t.hookName? s).map fun h => (s, rank (some h))

/-- The place of a hook among statements: after the last hook of at most its rank, else before the
first hook of a higher one, else first. -/
def hookEdit (t : Tree) (block : Node) (statements : List Node) (statement : String) (r : Nat)
    (indent : String) : Edit :=
  let hooks := rankedHooks t statements
  match (hooks.filter (·.2 ≤ r)).getLast? with
  | some (last, _) => .insert last.stop ("\n" ++ indent ++ statement)
  | none =>
    match hooks.find? (r < ·.2) with
    | some (next, _) => .insert next.start (statement ++ "\n" ++ indent)
    | none => .insert (block.start + 1) ("\n" ++ indent ++ statement)

/-- The place of a statement that is no hook: after the last statement before the first return. -/
def plainEdit (block : Node) (statements : List Node) (statement : String) (indent : String) :
    Edit :=
  let others := statements.filter fun s => !s.is .returnStatement
  let after (s : Node) : Edit := .insert s.stop ("\n" ++ indent ++ statement)
  match statements.find? (·.is .returnStatement) with
  | some r =>
    match (others.filter (·.stop ≤ r.start)).getLast? with
    | some s => after s
    | none => .insert r.start (statement ++ "\n\n" ++ indent)
  | none =>
    match others.getLast? with
    | some s => after s
    | none => .insert (block.start + 1) ("\n" ++ indent ++ statement)

/-- Turns the expression that an arrow function evaluates into a block with a statement in front. -/
def blockEdit (t : Tree) (body : Node) (outer statement indent : String) : Edit :=
  let expression := Text.reindent (t.nodeText body) indent
  ⟨body.start, body.stop,
    "\x7b\n" ++ indent ++ statement ++ "\n" ++ indent ++ "return " ++ expression ++ ";\n" ++
      outer ++ "\x7d"⟩

/-- The edit that puts a statement, written for `indent`, into the body of a function. -/
def statementEdit (t : Tree) (f : Function) (statement : String) (r : Nat) (indent : String) :
    Except Failure Edit := do
  let body ← t.resolve f.body
  if body.is .statementBlock then
    let statements := blockStatements body
    if statementRank ≤ r then return plainEdit body statements statement indent
    else return hookEdit t body statements statement r indent
  else
    let outer ← t.resolve f.statement
    return blockEdit t body (t.indentAt outer.start) statement indent

/-- Imports a hook from React, unless some import binds its name. -/
def ensureImport (d : Draft) (hook : String) : Reading String := do
  let t ← d.tree
  if t.imports.any (·.locals.contains hook) then return d.text
  else Import.mergeInto d t (.named "react" [hook])

/-- The edit that puts the function of a reducer before the statement of a component. -/
def reducerEdit (t : Tree) (f : Function) (name : String) (actions : List ReducerAction)
    (unit : String) : Except Failure Edit := do
  let v ← t.resolveVisit f.statement
  let declared := match v.ancestors with
    | scope :: above => t.declaredNames scope above.head?
    | [] => []
  if declared.contains name then throw (.reducerDeclared name)
  let base := t.indentAt v.node.start
  return .insert v.node.start (renderReducer name actions base unit ++ "\n\n" ++ base)

/-- The edits that add a hook to a component. -/
def edits (t : Tree) (f : Function) (hook : Hook) : Except Failure (List Edit) := do
  let layout ← t.layout f
  t.checkNames f hook.declares
  let statement := hook.render layout.indent layout.unit
  let edit ← statementEdit t f statement (rank (some hook.callee)) layout.indent
  match hook with
  | .reducer _ _ name _ actions => return [edit, ← reducerEdit t f name actions layout.unit]
  | _ => return [edit]

/-- Adds a hook to a component of a draft. -/
def add (d : Draft) (hook : Hook) (component : Option String) : Reading Outcome := do
  let t ← d.tree
  let f ← t.component component
  let text ← t.edited (← edits t f hook)
  let text ← ensureImport (d.advance text) hook.callee
  let owner := f.name.getD ""
  let owner := if owner == "" then "component" else owner
  let names := hook.declares
  let label := if names.isEmpty then hook.callee else Text.join ", " names
  return .plain text ("Added " ++ hook.callee ++ " " ++ label ++ " to " ++ owner)

end SourceChange.Hook
