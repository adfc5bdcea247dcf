import SourceChange.Source.Call
import SourceChange.Source.Element
import SourceChange.Text.Case
import SourceChange.Text.Indent

/-!
Blocks of markup that could be components of their own: very long ones, repeated ones, and sections of
known kinds in long files.
-/

namespace SourceChange.Advice

open Source Syntax

/-- When a file or a block counts as too long, and a repeated block as long enough. -/
structure Limits where
  fileLines : Nat
  blockLines : Nat
  duplicateLines : Nat
  deriving DecidableEq, Repr

/-- The limits that hold unless others are given. -/
def Limits.standard : Limits := ⟨300, 50, 5⟩

/-- A block worth extracting: the node, the base of a name for it, and the reason. -/
structure Candidate where
  node : Node
  base : String
  reason : String

/-- The first and the last line of a node. -/
def lineSpan (t : Tree) (n : Node) : Nat × Nat := (t.line n.start, t.line n.stop)

/-- The number of lines of a node. -/
def lineCount (t : Tree) (n : Node) : Nat :=
  let (first, last) := lineSpan t n
  last - first + 1

/-- The outermost elements with too many lines. -/
def oversized (t : Tree) (limits : Limits) : List Candidate :=
  (t.rootD.outermost fun n => isElement n && limits.blockLines < lineCount t n).map fun n =>
    ⟨n, "Section", "JSX block longer than " ++ toString limits.blockLines ++ " lines"⟩

/-- Nodes with the same text up to layout. -/
structure Group where
  form : String
  nodes : List Node

/-- Takes a node into the group of its form; a form that is new gets a group at the end. -/
def addToGroups (form : String) (n : Node) : List Group → List Group
  | [] => [⟨form, [n]⟩]
  | g :: gs =>
    if g.form == form then { g with nodes := g.nodes ++ [n] } :: gs else g :: addToGroups form n gs

/-- The elements that are long enough, grouped by their text. -/
def groups (t : Tree) (limits : Limits) : List Group :=
  let nodes := t.rootD.walk.filter fun n => isElement n && limits.duplicateLines ≤ lineCount t n
  nodes.foldl (fun gs n => addToGroups (Text.compact (t.nodeText n)) n gs) []

/-- Keeps the groups with several nodes whose first node lies in no node of a group kept before. -/
def keepGroups (covered : List Span) : List Group → List (Node × Nat)
  | [] => []
  | g :: gs =>
    match g.nodes with
    | first :: _ :: _ =>
      if covered.any (·.contains first.span) then keepGroups covered gs
      else (first, g.nodes.length) :: keepGroups (covered ++ g.nodes.map (·.span)) gs
    | _ => keepGroups covered gs

/-- The repeated blocks. -/
def duplicated (t : Tree) (limits : Limits) : List Candidate :=
  (keepGroups [] (groups t limits)).map fun (n, count) =>
    ⟨n, "Block", "JSX block repeated " ++ toString count ++ " times"⟩

/-- A kind of section, with the fewest bytes that make one worth extracting. -/
structure Section where
  name : String
  reason : String
  minSize : Nat
  isOne : Tree → Node → Bool

/-- Elements with the given tag. -/
def hasTag (tag : String) (t : Tree) (n : Node) : Bool := isElement n && t.tagOf n == tag

/-- `div` elements with the given word in their opening tag. -/
def isDivWith (word : String) (t : Tree) (n : Node) : Bool :=
  hasTag "div" t n &&
    Text.occursIn word.toList (Text.lower ((openingTag? n).elim "" t.nodeText)).toList

/-- Calls of `map` that make elements. -/
def isListRendering (t : Tree) (n : Node) : Bool :=
  n.is .callExpression && t.calleeName? n == some "map" && n.walk.any isElement

/-- The kinds of sections. -/
def sections : List Section :=
  [⟨"Section", "Large div block detected", 200, isDivWith "classname"⟩,
   ⟨"Form", "Form element detected", 100, hasTag "form"⟩,
   ⟨"Modal", "Modal component detected", 100, isDivWith "modal"⟩,
   ⟨"Card", "Card component detected", 100, isDivWith "card"⟩,
   ⟨"Header", "Header component detected", 100, hasTag "header"⟩,
   ⟨"Footer", "Footer component detected", 100, hasTag "footer"⟩,
   ⟨"Item", "Repeated list rendering detected", 50, isListRendering⟩]

/-- The first three outermost sections of a kind that are large enough. -/
def sectionMatches (t : Tree) (s : Section) : List Candidate :=
  let found := (t.rootD.outermost (s.isOne t)).filter fun n => s.minSize ≤ n.stop - n.start
  (found.take 3).map fun n => ⟨n, s.name, s.reason⟩

/-- All candidates of a module, in the order of discovery. -/
def candidates (t : Tree) (limits : Limits) (longFile : Bool) : List Candidate :=
  oversized t limits ++ duplicated t limits ++
    (if longFile then sections.flatMap (sectionMatches t) else [])

end SourceChange.Advice
