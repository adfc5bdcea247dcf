import SourceChange.Source.Tree

/-!
The elements of a module and the handlers of events on them.
-/

namespace SourceChange.Source

open Syntax

/-- An element. -/
structure Element where
  handle : Handle
  /-- The name in the tag; a fragment has the empty name. -/
  tag : String
  opening : Handle
  closing : Option Handle
  selfClosing : Bool
  deriving Repr

/-- An attribute such as `onClick`. -/
structure EventHandler where
  handle : Handle
  event : String
  /-- The name or member that the attribute refers to. -/
  handler : Option String
  tag : String
  deriving Repr

namespace EventHandler

/-- Whether the handler is written out in the attribute. -/
def isInline (h : EventHandler) : Bool := h.handler.isNone

end EventHandler

/-- Elements of both forms. -/
def isElement (n : Node) : Bool := n.isOneOf [.jsxElement, .jsxSelfClosingElement]

/-- The opening tag of an element; an element that closes itself is its own. -/
def openingTag? (n : Node) : Option Node :=
  if n.is .jsxSelfClosingElement then some n
  else n.child? .openTag <|> n.children.find? (·.is .jsxOpeningElement)

/-- The closing tag of an element. -/
def closingTag? (n : Node) : Option Node :=
  if n.is .jsxElement then n.child? .closeTag <|> n.children.find? (·.is .jsxClosingElement)
  else none

/-- Names of event attributes: `on` and a capital letter. -/
def isEventName (name : String) : Bool :=
  match name.toList with
  | 'o' :: 'n' :: c :: _ => 'A' ≤ c && c ≤ 'Z'
  | _ => false

namespace Tree

/-- The name in the tag of an element. -/
def tagOf (t : Tree) (n : Node) : String :=
  ((openingTag? n).bind (t.roleText? · .name)).getD ""

/-- Describes an element. -/
def elementOf (t : Tree) (n : Node) : Element :=
  { handle := t.handle n
    tag := t.tagOf n
    opening := t.handle ((openingTag? n).getD n)
    closing := (closingTag? n).map t.handle
    selfClosing := n.is .jsxSelfClosingElement }

/-- The elements of a module, in document order. -/
def elements (t : Tree) : List Element := (t.rootD.walk.filter isElement).map t.elementOf

/-- The elements with the given tag, in document order. -/
def elementsWith (t : Tree) (tag : String) : List Element := t.elements.filter (·.tag == tag)

/-- The event handler at an attribute. -/
def eventHandlerOf? (t : Tree) (v : Node.Visit) : Option EventHandler := do
  guard (v.node.is .jsxAttribute)
  let first ← v.node.named.head?
  let event := t.nodeText first
  guard (isEventName event)
  let owner : Option Node := do
    let p ← v.parent?
    if p.is .jsxOpeningElement then v.ancestors[1]? else some p
  let handler : Option String := do
    guard (1 < v.node.named.length)
    let value ← v.node.named.getLast?
    guard (value.is .jsxExpression)
    let e ← value.named.head?
    guard (e.isOneOf [.identifier, .memberExpression])
    return t.nodeText e
  return ⟨t.handle v.node, event, handler, (owner.map t.tagOf).getD ""⟩

/-- The event handlers of a module, in document order. -/
def eventHandlers (t : Tree) : List EventHandler := t.rootD.visits.filterMap t.eventHandlerOf?

end Tree

end SourceChange.Source
