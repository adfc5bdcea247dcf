import SourceChange.Source.Call

/-!
The functions of a module and its main component.
-/

namespace SourceChange.Source

open Syntax

/-- How a function is written. -/
inductive FunctionForm where
  | declaration
  | arrow
  | expression
  deriving DecidableEq, Repr

namespace FunctionForm

/-- The public name of a form. -/
def name : FunctionForm → String
  | declaration => "function_declaration"
  | arrow => "arrow_function"
  | expression => "function_expression"

end FunctionForm

/-- A function of a module. -/
structure Function where
  handle : Handle
  name : Option String
  form : FunctionForm
  /-- The block or the expression that the function evaluates. -/
  body : Handle
  parameters : Option Handle
  /-- The declarator that binds the function. -/
  declarator : Option Handle
  /-- The statement around the function that stands directly in a scope. -/
  statement : Handle
  isExported : Bool
  isDefaultExport : Bool
  deriving Repr

/-- The node around `n`, or `n` itself, that stands directly in a scope. -/
def enclosingStatement (n : Node) : List Node → Node
  | [] => n
  | p :: ps => if isScope p then n else enclosingStatement p ps

namespace Tree

/-- Describes a function. -/
def functionAt (t : Tree) (v : Node.Visit) (name : Option String) (declarator : Option Node) :
    Function :=
  let n := v.node
  let statement := enclosingStatement n v.ancestors
  let form : FunctionForm :=
    if n.isOneOf [.functionDeclaration, .generatorFunctionDeclaration] then .declaration
    else if n.is .arrowFunction then .arrow
    else .expression
  let exported := statement.is .exportStatement
  { handle := t.handle n
    name := name
    form := form
    body := t.handle ((n.child? .body).getD n)
    parameters := n.parameters?.map t.handle
    declarator := declarator.map t.handle
    statement := t.handle statement
    isExported := exported
    isDefaultExport := exported && statement.hasToken "default" }

/-- The declarator that binds a node as its value. -/
def bindingDeclarator? (v : Node.Visit) : Option Node := do
  let p ← v.parent?
  guard (p.is .variableDeclarator)
  let value ← p.child? .value
  guard (value.span == v.node.span && value.kind == v.node.kind)
  return p

/-- Whether a node is what a module exports by default. -/
def isDefaultExportValue (v : Node.Visit) : Bool :=
  match v.parent? with
  | some p => p.is .exportStatement && p.hasToken "default"
  | none => false

/-- The function at a node: declarations, function expressions, and arrow functions that a
declarator binds or the module exports by default. -/
def functionOf? (t : Tree) (v : Node.Visit) : Option Function :=
  let n := v.node
  if n.isOneOf [.functionDeclaration, .generatorFunctionDeclaration] then
    some (t.functionAt v (t.roleText? n .name) none)
  else if n.isOneOf [.arrowFunction, .functionExpression] || n.isToken "function" then
    match bindingDeclarator? v with
    | some d =>
      let name := do
        let b ← d.child? .name
        guard (b.is .identifier)
        return t.nodeText b
      some (t.functionAt v name (some d))
    | none =>
      if !n.is .arrowFunction || isDefaultExportValue v then
        some (t.functionAt v (t.roleText? n .name) none)
      else none
  else none

/-- The functions of a module, in document order. -/
def functions (t : Tree) : List Function := t.rootD.visits.filterMap t.functionOf?

/-- What a chain of calls is finally applied to, as in `memo(forwardRef(Name))`, with at most the
given number of calls. -/
def innermostArgument? : Nat → Node → Option Node
  | 0, _ => none
  | n + 1, e =>
    if e.is .callExpression then
      (e.child? .arguments).bind fun args => args.named.head?.bind (innermostArgument? n)
    else some e

/-- The name of the first value that the module exports by default, through wrapping calls. -/
def defaultExportName? (t : Tree) : Option String :=
  t.rootD.named.findSome? fun s =>
    if s.is .exportStatement && s.hasToken "default" then do
      let value ← s.child? .value
      let e ← innermostArgument? (value.depth + 1) value
      guard (e.is .identifier)
      return t.nodeText e
    else none

/-- The function with the given name. -/
def functionNamed? (t : Tree) (name : String) : Option Function :=
  t.functions.find? (·.name == some name)

/-- The function that the module exports by default. -/
def defaultExported? (t : Tree) : Option Function :=
  match t.functions.find? (·.isDefaultExport) with
  | some f => some f
  | none => t.defaultExportName?.bind t.functionNamed?

/-- The main component of a module: the default export, else the first function with a capitalised
name, else the first function with a name. -/
def mainComponent? (t : Tree) : Option Function :=
  let hasName (f : Function) : Bool := (f.name.map (· != "")).getD false
  t.defaultExported?
    <|> t.functions.find? (fun f => (f.name.map Text.startsUpper).getD false)
    <|> t.functions.find? hasName

/-- The component with the given name, or the main one. -/
def component? (t : Tree) : Option String → Option Function
  | some name => t.functionNamed? name
  | none => t.mainComponent?

end Tree

end SourceChange.Source
