import SourceChange.Datum.Basic
import SourceChange.Yaml.Layout
import SourceChange.Yaml.Tag

/-!
The nodes of a document: scalars, lists and tables with their types.

A reference stands for the node with the anchor it names; within that node itself it stands for the
collection as such. Members that a table takes over from others precede its own.
-/

namespace SourceChange.Yaml

/-- A node of a document. -/
inductive Node where
  | scalar (tag : Tag) (text : String)
  | list (tag : Tag) (items : List Node)
  | table (tag : Tag) (members : List (Node × Node))
  /-- A collection as it is seen from within itself. -/
  | enclosing (kind : Collection)
  deriving Repr

namespace Node

/-- The node of a value that is left out. -/
def absent : Node := scalar .null ""

/-- The type of a node. -/
def tag : Node → Tag
  | scalar t _ => t
  | list t _ => t
  | table t _ => t
  | enclosing .list => .list
  | enclosing .set => .set
  | enclosing .table => .table

/-- Whether a node is a list or a table; such a node is no key. -/
def isCollection : Node → Bool
  | scalar _ _ => false
  | _ => true

/-- The members of the tables that a node lists, the last table first. -/
def mergedItems : List Node → Except Fault (List (Node × Node))
  | [] => .ok []
  | table _ ms :: ns => (mergedItems ns).map (· ++ ms)
  | enclosing .table :: ns => mergedItems ns
  | _ :: _ => .error .malformed

/-- The members that a table takes over from a node. -/
def merged : Node → Except Fault (List (Node × Node))
  | table _ ms => .ok ms
  | list _ ns => mergedItems ns
  | enclosing .table | enclosing .set => .ok []
  | _ => .error .malformed

/-- The members of a table, those that it takes over first: what is taken over, and what is its own. -/
def mergeMembers : List (Node × Node) → Except Fault (List (Node × Node) × List (Node × Node))
  | [] => .ok ([], [])
  | (k, v) :: ms => do
    let (others, own) ← mergeMembers ms
    match k.tag with
    | .merge => return ((← merged v) ++ others, own)
    | .usual =>
      match k with
      | scalar _ text => return (others, (scalar .string text, v) :: own)
      | _ => return (others, (k, v) :: own)
    | _ => return (others, (k, v) :: own)

/-- A table of a type with members as they are written. -/
def tableOf (tag : Tag) (ms : List (Node × Node)) : Except Fault Node := do
  let (others, own) ← mergeMembers ms
  return table tag (others ++ own)

end Node

/-- A document while its nodes are read. -/
structure Composer where
  tokens : List Token
  anchors : List (String × Node)
  /-- The short forms for the starts of types. -/
  handles : List (String × String)

/-- Reading nodes off tokens. -/
abbrev Compose := StateT Composer (Except Fault)

namespace Compose

/-- The short forms that need not be declared. -/
def standardHandles : List (String × String) := [("!", "!"), ("!!", Tag.root)]

/-- The tokens are not of the right form. -/
def malformed {α : Type} : Compose α := throw .malformed

/-- The tokens have to be of the right form. -/
def require (ok : Bool) : Compose Unit := if ok then pure () else malformed

/-- The next token. -/
def next : Compose (Option Token) := do return (← get).tokens.head?

/-- Whether the next token is one of some. -/
def isNext (ts : List Token) : Compose Bool := do
  return match ← next with
    | some t => ts.contains t
    | none => false

/-- Passes over the next token. -/
def skip : Compose Unit := modify fun c => { c with tokens := c.tokens.drop 1 }

/-- Takes a token, if it comes next. -/
def take (t : Token) : Compose Bool := do
  let found ← isNext [t]
  if found then skip
  return found

/-- Gives a node a name; a name is given once. -/
def setAnchor (name : Option String) (n : Node) : Compose Unit :=
  match name with
  | none => pure ()
  | some name => modify fun c => { c with anchors := (name, n) :: c.anchors }

/-- The anchor before a node. -/
def anchor? : Compose (Option String) := do
  match ← next with
  | some (.anchor name) =>
    skip
    return some name
  | _ => return none

/-- The name of the type before a node. -/
def tag? : Compose (Option String) := do
  match ← next with
  | some (.tag (.whole name)) =>
    skip
    return some name
  | some (.tag (.short handle ending)) =>
    skip
    match (← get).handles.lookup handle with
    | some start => return some (start ++ ending)
    | none => malformed
  | _ => return none

/-- The anchor and the type before a node, in either order. -/
def properties : Compose (Option String × Option String) := do
  match ← anchor? with
  | some a => return (some a, ← tag?)
  | none =>
    let t ← tag?
    return (← anchor?, t)

/-- The type of a collection; the given one unless another is named. -/
def collectionTag (common : Tag) (name : Option String) : Tag :=
  match name with
  | none => common
  | some name => if name == "!" then common else Tag.ofName name

/-- The type of a scalar. A plain one shows it, and so does one whose type is said to be the usual one. -/
def scalarTag (name : Option String) (text : String) (isPlain : Bool) : Tag :=
  match name with
  | none => if isPlain then Tag.ofPlain text else .string
  | some name => if name == "!" then Tag.ofPlain text else Tag.ofName name

/-- Where a node stands: by its indentation, the same after a key, where a list need not be indented, or
between brackets. -/
inductive Place where
  | block
  | member
  | flow
  deriving DecidableEq, Repr

/-- The tokens before which a node between brackets is absent. -/
def flowStops : List Token := [.comma, .flowListEnd, .flowTableEnd]

mutual

/-- A node. -/
def node : Nat → Place → Compose Node
  | 0, _ => malformed
  | n + 1, place => do
    if let some (.reference name) := ← next then
      skip
      match (← get).anchors.lookup name with
      | some x => return x
      | none => malformed
    else
      let (anchor, tag) ← properties
      let known := (← get).anchors
      require !(anchor.any fun name => (known.lookup name).isSome)
      let collection (kind : Collection) (common : Tag) (read : Tag → Compose Node) : Compose Node := do
        let t := collectionTag common tag
        setAnchor anchor (.enclosing (if t == .set then .set else kind))
        let x ← read t
        setAnchor anchor x
        return x
      let listOf (read : Compose (List Node)) : Compose Node :=
        collection .list .list fun t => do return .list t (← read)
      let tableOf (read : Compose (List (Node × Node))) : Compose Node :=
        collection .table .table fun t => do
          match Node.tableOf t (← read) with
          | .ok x => return x
          | .error e => throw e
      match ← next with
      | some (.scalar text isPlain) =>
        skip
        let x := Node.scalar (scalarTag tag text isPlain) text
        setAnchor anchor x
        return x
      | some .flowListStart =>
        skip
        listOf (flowItems n true)
      | some .flowTableStart =>
        skip
        tableOf (flowMembers n true)
      | some .listStart =>
        require (place != .flow)
        skip
        listOf (blockItems n)
      | some .tableStart =>
        require (place != .flow)
        skip
        tableOf (blockMembers n)
      | some .item =>
        if place == .member then listOf (plainItems n)
        else absentNode anchor tag
      | _ => absentNode anchor tag

/-- A node of which there is nothing but its anchor or its type. -/
def absentNode (anchor tag : Option String) : Compose Node := do
  require (anchor.isSome || tag.isSome)
  let x := Node.scalar (scalarTag tag "" true) ""
  setAnchor anchor x
  return x

/-- A node that is absent before some tokens. -/
def nodeUnless : Nat → List Token → Place → Compose Node
  | 0, _, _ => malformed
  | n + 1, stops, place => do
    if ← isNext stops then return .absent else node n place

/-- The items of an indented list. -/
def blockItems : Nat → Compose (List Node)
  | 0 => malformed
  | n + 1 => do
    if ← take .item then
      let x ← nodeUnless n [.item, .blockEnd] .block
      return x :: (← blockItems n)
    else
      require (← take .blockEnd)
      return []

/-- The items of a list that stands below a key without being indented further. -/
def plainItems : Nat → Compose (List Node)
  | 0 => malformed
  | n + 1 => do
    if ← take .item then
      let x ← nodeUnless n [.item, .key, .value, .blockEnd] .block
      return x :: (← plainItems n)
    else return []

/-- The members of an indented table. -/
def blockMembers : Nat → Compose (List (Node × Node))
  | 0 => malformed
  | n + 1 => do
    let stops := [Token.key, .value, .blockEnd]
    if ← take .key then
      let k ← nodeUnless n stops .member
      let v ← if ← take .value then nodeUnless n stops .member else pure .absent
      return (k, v) :: (← blockMembers n)
    else
      require (← take .blockEnd)
      return []

/-- A member after its key mark, between brackets. -/
def flowMember : Nat → Compose (Node × Node)
  | 0 => malformed
  | n + 1 => do
    let k ← nodeUnless n (.value :: flowStops) .flow
    let v ← if ← take .value then nodeUnless n flowStops .flow else pure .absent
    return (k, v)

/-- The items of a list up to its closing bracket. A member among them is a table of its own. -/
def flowItems : Nat → Bool → Compose (List Node)
  | 0, _ => malformed
  | n + 1, isFirst => do
    if ← take .flowListEnd then return []
    if !isFirst then require (← take .comma)
    if ← take .key then
      let m ← flowMember n
      match Node.tableOf .table [m] with
      | .ok x => return x :: (← flowItems n false)
      | .error e => throw e
    else if ← take .flowListEnd then return []
    else
      let x ← node n .flow
      return x :: (← flowItems n false)

/-- The members of a table up to its closing brace. -/
def flowMembers : Nat → Bool → Compose (List (Node × Node))
  | 0, _ => malformed
  | n + 1, isFirst => do
    if ← take .flowTableEnd then return []
    if !isFirst then require (← take .comma)
    if ← take .key then
      let m ← flowMember n
      return m :: (← flowMembers n false)
    else if ← take .flowTableEnd then return []
    else
      let k ← node n .flow
      return (k, .absent) :: (← flowMembers n false)

end

end Compose

end SourceChange.Yaml
