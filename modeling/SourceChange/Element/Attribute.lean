import SourceChange.Draft
import SourceChange.Operation.Basic
import SourceChange.Source.Element
import SourceChange.Source.Locate
import SourceChange.Text.Basic
import SourceChange.Text.Case

/-!
The attributes in an opening tag, and adding, updating and removing one of them.
-/

namespace SourceChange.Element

open Source Syntax

/-- The name of an attribute. -/
def attributeName (t : Tree) (attr : Node) : String := (attr.named.head?.map t.nodeText).getD ""

/-- The value of an attribute; an attribute that is only a name has none. -/
def attributeValue? (attr : Node) : Option Node :=
  if 1 < attr.named.length then attr.named.getLast? else none

/-- The first attribute with the given name in an opening tag. -/
def findAttribute? (t : Tree) (opening : Node) (name : String) : Option Node :=
  opening.named.find? fun c => c.is .jsxAttribute && attributeName t c == name

/-- Whether an opening tag spreads an object into its attributes. -/
def hasSpread (opening : Node) : Bool :=
  opening.named.any fun c => c.is .jsxExpression && c.named.any (·.is .spreadElement)

/-- The offset after the name and the attributes of an opening tag. -/
def attributesEnd (opening : Node) : Except Failure Nat :=
  let last := opening.named.filter (·.isOneOf [.jsxAttribute, .jsxExpression, .typeArguments])
  match last.getLast? <|> opening.child? .name with
  | some n => .ok n.stop
  | none => .error .fragmentAttributes

/-- Whether a text starts and ends with the same quote. -/
def isQuoted : List Char → Bool
  | [] => false
  | q :: rest => (q == '\x27' || q == '\x22') && rest.getLast? == some q

/-- One attribute: only a name, a name and a string, or a name and an expression in braces. -/
def renderProp (name : String) : Option String → String
  | none => name
  | some value =>
    let cs := Text.strip value.toList
    let v := String.ofList cs
    if isQuoted cs then
      let inner := (cs.drop 1).dropLast
      if inner.contains '\x22' || inner.contains '\\' then name ++ "=\x7b" ++ v ++ "\x7d"
      else name ++ "=\"" ++ String.ofList inner ++ "\""
    else if cs.head? == some '\x7b' && cs.getLast? == some '\x7d' then name ++ "=" ++ v
    else name ++ "=\x7b" ++ v ++ "\x7d"

/-- The sibling directly before a node, given all siblings. -/
def previousSibling? (n : Node) : List Node → Option Node
  | a :: b :: rest =>
    if b.span == n.span && b.kind == n.kind then some a else previousSibling? n (b :: rest)
  | _ => none

/-- The edit that adds, updates or removes a prop in an opening tag. -/
def propEdit (t : Tree) (opening : Node) (target name : String) (value : Option String) :
    PropAction → Except Failure Edit
  | .add =>
    match findAttribute? t opening name with
    | some _ => .error (.propPresent name target)
    | none => do
      let offset ← attributesEnd opening
      return .insert offset (" " ++ renderProp name value)
  | .update =>
    match findAttribute? t opening name with
    | some a => .ok ⟨a.start, a.stop, renderProp name value⟩
    | none => .error (.propAbsent "update" name target (hasSpread opening))
  | .remove =>
    match findAttribute? t opening name with
    | some a =>
      let start := ((previousSibling? a opening.children).map (·.stop)).getD a.start
      .ok (.delete start a.stop)
    | none => .error (.propAbsent "remove" name target (hasSpread opening))

/-- Changes a prop of the first element with a tag. -/
def changeProp (d : Draft) (target name : String) (action : PropAction) (value : Option String) :
    Reading Outcome := do
  let t ← d.tree
  let element ← t.element target
  let opening ← t.resolve element.opening
  let text ← t.edited [← propEdit t opening target name value action]
  return .plain text
    (Text.capitalize action.name ++ " prop '" ++ name ++ "' on <" ++ target ++ ">")

end SourceChange.Element
