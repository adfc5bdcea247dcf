import SourceChange.Draft
import SourceChange.Element.Attribute
import SourceChange.Import.Plan
import SourceChange.Operation.Basic
import SourceChange.Source.Locate
import SourceChange.Text.Indent

/-!
Inserting markup before, after or inside an element, in the indentation of its surroundings, and wrapping an
element in a component.
-/

namespace SourceChange.Element

open Source Syntax

/-- A module that holds a fragment with the given markup in it. -/
def fragmentModule (jsx : String) : String := "const fragment = (\n<>\n" ++ jsx ++ "\n</>\n);\n"

/-- Refuses what cannot stand between tags. -/
def checkFragment (jsx : String) : Reading Unit := do
  let probe ← Reading.lenient .tsx (fragmentModule jsx)
  if probe.hasErrors then throw (.fragmentBroken jsx)

/-- Inserts markup next to an element that stands inside another one. -/
def siblingEdit (t : Tree) (v : Node.Visit) (target jsx : String) (position : Position) :
    Except Failure Edit :=
  let n := v.node
  let before := position == .before
  if (v.parent?.map (·.is .jsxElement)).getD false then
    if t.startsLine n.start then
      let indent := t.indentAt n.start
      let fragment := Text.reindent jsx indent
      .ok (if before then .insert n.start (fragment ++ "\n" ++ indent)
        else .insert n.stop ("\n" ++ indent ++ fragment))
    else .ok (.insert (if before then n.start else n.stop) (Text.flattened jsx))
  else .error (.notChild target position.name)

/-- Gives an element that closes itself a closing tag, with markup inside. -/
def expandEdit (t : Tree) (n : Node) (tag jsx unit : String) : Edit :=
  let indent := t.indentAt n.start
  let childIndent := indent ++ unit
  let text := (t.nodeText n).toList
  let head := String.ofList (Text.stripEnd (text.take (text.length - 2)))
  ⟨n.start, n.stop,
    head ++ ">\n" ++ childIndent ++ Text.reindent jsx childIndent ++ "\n" ++ indent ++ "</" ++
      tag ++ ">"⟩

/-- The children of an element between its tags, without blank text. -/
def innerChildren (t : Tree) (n opening closing : Node) : List Node :=
  n.named.filter fun c =>
    opening.stop ≤ c.start && c.stop ≤ closing.start &&
      !(c.is .jsxText && Text.isBlankText (t.nodeText c))

/-- The indentation of the children of an element. -/
def childIndentOf (t : Tree) (n : Node) (children : List Node) (unit : String) : String :=
  match children.find? fun c => t.startsLine c.start with
  | some c => t.indentAt c.start
  | none => t.indentAt n.start ++ unit

/-- The offset just after the last child; blanks at the end of a text do not count. -/
def lastChildEnd (t : Tree) (opening : Node) (children : List Node) : Nat :=
  match children.getLast? with
  | none => opening.stop
  | some c =>
    if c.is .jsxText then c.start + byteSize (Text.stripEnd (t.nodeText c).toList) else c.stop

/-- Inserts markup inside an element, at the start or at the end. -/
def childEdit (t : Tree) (n : Node) (jsx : String) (atStart : Bool) (unit : String) :
    Except Failure Edit :=
  match openingTag? n, closingTag? n with
  | some opening, some closing =>
    let children := innerChildren t n opening closing
    let indent := childIndentOf t n children unit
    let block := "\n" ++ indent ++ Text.reindent jsx indent
    if t.startsLine closing.start then
      .ok (.insert (if atStart then opening.stop else lastChildEnd t opening children) block)
    else .ok (.insert (if atStart then opening.stop else closing.start) (Text.flattened jsx))
  | _, _ => .error .noClosingTag

/-- The edit that inserts markup relative to an element. -/
def insertionEdit (t : Tree) (v : Node.Visit) (tag target jsx : String) (position : Position) :
    Except Failure Edit :=
  let unit := Text.indentUnit t.text
  if position == .before || position == .after then siblingEdit t v target jsx position
  else if v.node.is .jsxSelfClosingElement then .ok (expandEdit t v.node tag jsx unit)
  else childEdit t v.node jsx (position == .insideStart) unit

/-- Inserts markup relative to the first element with a tag. -/
def insert (d : Draft) (target jsx : String) (position : Position) : Reading Outcome := do
  checkFragment jsx
  let t ← d.tree
  let element ← t.element target
  let v ← t.resolveVisit element.handle
  let text ← t.edited [← insertionEdit t v element.tag target jsx position]
  return .plain text ("Inserted JSX " ++ position.name ++ " <" ++ target ++ ">")

/-- The edit that wraps an element. -/
def wrapEdit (t : Tree) (n : Node) (wrapper : String) (props : List (String × String)) : Edit :=
  let indent := t.indentAt n.start
  let inner := indent ++ Text.indentUnit t.text
  let attributes := String.join (props.map fun (name, value) => " " ++ renderProp name (some value))
  ⟨n.start, n.stop,
    "<" ++ wrapper ++ attributes ++ ">\n" ++ inner ++ Text.reindent (t.nodeText n) inner ++ "\n" ++
      indent ++ "</" ++ wrapper ++ ">"⟩

/-- Wraps the first element with a tag, and imports the wrapper if asked to. -/
def wrap (d : Draft) (target wrapper : String) (props : List (String × String))
    (spec : Option ImportSpec) : Reading Outcome := do
  let t ← d.tree
  let element ← t.element target
  let n ← t.resolve element.handle
  let text ← t.edited [wrapEdit t n wrapper props]
  let text ← match spec with
    | some s => Import.merge (d.advance text) s
    | none => pure text
  return .plain text ("Wrapped <" ++ target ++ "> in <" ++ wrapper ++ ">")

end SourceChange.Element
