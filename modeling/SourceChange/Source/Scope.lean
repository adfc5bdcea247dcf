import SourceChange.Source.Declaration
import SourceChange.Text.Case

/-!
The names that part of a module uses and the names it can see.

`Tree.freeNames` lists the names used below a node that are not bound below it, in the order of their
first use. `Tree.visibleNames` lists what the scopes and functions around a node declare.
-/

namespace SourceChange.Source

open Syntax

/-- Names that every module can use without declaring them. -/
def globalNames : List String :=
  ["undefined", "NaN", "Infinity", "globalThis", "window", "document", "navigator", "console",
   "localStorage", "sessionStorage", "fetch", "alert", "confirm", "prompt", "setTimeout",
   "clearTimeout", "setInterval", "clearInterval", "requestAnimationFrame", "cancelAnimationFrame",
   "parseInt", "parseFloat", "isNaN", "isFinite", "encodeURIComponent", "decodeURIComponent",
   "structuredClone", "Math", "JSON", "Object", "Array", "Number", "String", "Boolean", "Symbol",
   "BigInt", "Date", "RegExp", "Error", "Promise", "Map", "Set", "WeakMap", "WeakSet", "Intl",
   "URL", "URLSearchParams", "FormData", "process"]

/-- The tag that a node is the name of. -/
def namedTag? (v : Node.Visit) : Option Node := do
  let p ← v.parent?
  guard (p.isOneOf [.jsxOpeningElement, .jsxClosingElement, .jsxSelfClosingElement])
  let name ← p.child? .name
  guard (name.span == v.node.span)
  return p

namespace Tree

/-- The names that one node binds: parameters, the name of a function, declarators and the parameter
of a catch clause. -/
def bindingsOf (t : Tree) (n : Node) : List String :=
  if isFunction n then
    t.patternNames n.parameters? ++
      (if n.isOneOf [.functionDeclaration, .functionExpression] then
        (t.roleText? n .name).toList
      else [])
  else if n.is .variableDeclarator then t.patternNames (n.child? .name)
  else if n.is .catchClause then t.patternNames (n.child? .parameter)
  else []

/-- The names bound anywhere below a node, itself included. -/
def boundNames (t : Tree) (n : Node) : List String := n.walk.flatMap t.bindingsOf

/-- The name that a node uses. A tag uses the component it names, once; the tags of plain elements
use nothing. -/
def usedName? (t : Tree) (v : Node.Visit) : Option String :=
  if v.node.isOneOf [.identifier, .shorthandPropertyIdentifier] then
    let name := t.nodeText v.node
    match namedTag? v with
    | none => some name
    | some tag => if !tag.is .jsxClosingElement && Text.startsUpper name then some name else none
  else none

/-- The names used below a node and bound neither there nor everywhere, in the order of first use. -/
def freeNames (t : Tree) (n : Node) : List String :=
  let bound := t.boundNames n
  let used := n.visits.filterMap t.usedName?
  (used.filter fun x => !bound.contains x && !globalNames.contains x).eraseDups

/-- The names that a node makes visible below it, given the node above it. -/
def namesFrom (t : Tree) (n : Node) (parent : Option Node) : List String :=
  if isScope n then
    t.declaredNames n parent ++
      (n.named.filter (·.is .variableDeclaration)).flatMap fun d =>
        d.named.flatMap fun x => t.patternNames (x.child? .name)
  else if isFunction n then t.patternNames n.parameters?
  else if n.is .catchClause then t.patternNames (n.child? .parameter)
  else []

/-- The names that the given ancestors, nearest first, make visible. -/
def visibleNames (t : Tree) : List Node → List String
  | [] => []
  | n :: above => t.namesFrom n above.head? ++ t.visibleNames above

end Tree

end SourceChange.Source
