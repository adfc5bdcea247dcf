import SourceChange.Draft
import SourceChange.Element.Attribute
import SourceChange.Operation.Basic
import SourceChange.Source.Locate

/-!
Changing the classes of an element. The classes that are already there stay; new ones follow.
-/

namespace SourceChange.Element

open Source Syntax

/-- The value of a `className` attribute: plain classes, and parts of a template. -/
structure Classes where
  static : List String
  dynamic : List String
  deriving DecidableEq, Repr

namespace Classes

/-- No classes. -/
def none : Classes := ⟨[], []⟩

/-- Plain classes, divided by blanks. -/
def ofText (s : String) : Classes := ⟨(Text.words s.toList).map String.ofList, []⟩

/-- The classes of an expression in braces. -/
def ofExpression (t : Tree) (e : Node) : Classes :=
  if e.is .stringLiteral then ofText (t.stringValue e)
  else if e.is .templateString then
    let body := ((t.nodeText e).toList.drop 1).dropLast
    if e.named.any (·.is .templateSubstitution) then ⟨[], [String.ofList (Text.strip body)]⟩
    else ofText (String.ofList body)
  else ⟨[], ["$\x7b" ++ t.nodeText e ++ "\x7d"]⟩

/-- The classes that an attribute gives. -/
def ofAttribute (t : Tree) (attr : Node) : Classes :=
  match attributeValue? attr with
  | .none => none
  | some v =>
    if v.is .stringLiteral then ofText (t.stringValue v)
    else
      match v.named.head? with
      | .none => none
      | some e => ofExpression t e

/-- Adds a plain class, unless it is there. -/
def addStatic (c : Classes) (name : String) : Classes :=
  if c.static.contains name then c else { c with static := c.static ++ [name] }

/-- Adds a part of a template. -/
def addDynamic (c : Classes) (part : String) : Classes := { c with dynamic := c.dynamic ++ [part] }

/-- The value of the attribute, in quotes or as a template in braces. -/
def render (c : Classes) : String :=
  if c.dynamic.isEmpty then "\"" ++ Text.join " " c.static ++ "\""
  else "\x7b`" ++ Text.join " " (c.static ++ c.dynamic) ++ "`\x7d"

end Classes

/-- A class that depends on a variable, as part of a template. -/
def renderCondition (c : ClassCondition) : String :=
  match c.operator with
  | .when => "$\x7b" ++ c.test ++ " && '" ++ c.trueValue ++ "'\x7d"
  | .choose => "$\x7b" ++ c.test ++ " ? '" ++ c.trueValue ++ "' : '" ++ c.falseValue ++ "'\x7d"

/-- A part of a template without blanks and backquotes around it. -/
def rawPart (raw : String) : String :=
  String.ofList (Text.trim (· == '\x60') (Text.strip raw.toList))

/-- The classes after a change. -/
def changedClasses (present : Classes) (static : List String) (condition : Option ClassCondition)
    (raw : Option String) : Classes :=
  let names := static.flatMap fun s => (Text.words s.toList).map String.ofList
  let c := names.foldl Classes.addStatic present
  let parts := (condition.map renderCondition).toList ++
    ((raw.filter (· != "")).map rawPart).toList
  parts.foldl Classes.addDynamic c

/-- The edit that writes a `className` attribute into an opening tag. -/
def classEdit (t : Tree) (opening : Node) (rendered : String) : Except Failure Edit :=
  match findAttribute? t opening "className" with
  | some a => .ok ⟨a.start, a.stop, rendered⟩
  | none => do
    let offset ← attributesEnd opening
    return .insert offset (" " ++ rendered)

/-- Changes the classes of the first element with a tag. -/
def changeClasses (d : Draft) (target : String) (static : List String)
    (condition : Option ClassCondition) (raw : Option String) : Reading Outcome := do
  let t ← d.tree
  let element ← t.element target
  let opening ← t.resolve element.opening
  let attr := findAttribute? t opening "className"
  let present := (attr.map (Classes.ofAttribute t)).getD Classes.none
  let rendered := "className=" ++ (changedClasses present static condition raw).render
  let text ← t.edited [← classEdit t opening rendered]
  return .plain text ("Modified className on <" ++ target ++ ">")

end SourceChange.Element
