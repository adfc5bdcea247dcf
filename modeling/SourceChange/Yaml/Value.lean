import SourceChange.Yaml.Node
import SourceChange.Yaml.Scalar

/-!
The value of a YAML text, which holds one document at most.
-/

namespace SourceChange.Yaml

namespace Compose

/-- The short forms that directives declare. Each is declared once, and so is the version, which has to
start with one. -/
def declaredHandles : List Directive → Bool → List (String × String) → Except Fault (List (String × String))
  | [], _, handles => .ok handles
  | .version major _ :: ds, hasVersion, handles =>
    if hasVersion || major != 1 then .error .malformed else declaredHandles ds true handles
  | .handle name start :: ds, hasVersion, handles =>
    if (handles.lookup name).isSome then .error .malformed
    else declaredHandles ds hasVersion ((name, start) :: handles)
  | .unknown :: ds, hasVersion, handles => declaredHandles ds hasVersion handles

/-- The directives at the start of tokens, and what follows them. -/
def cutDirectives : List Token → List Directive × List Token
  | .directive d :: ts =>
    let (ds, rest) := cutDirectives ts
    (d :: ds, rest)
  | ts => ([], ts)

/-- How deep nodes of a text with the given number of tokens can lie, with room for the steps between
them. -/
def maxDepth (tokens : Nat) : Nat := 4 * (tokens + 2)

/-- Whether a token ends a document. -/
def endsDocument : Token → Bool
  | .directive _ | .documentStart | .documentEnd => true
  | _ => false

/-- The node of a document whose tokens start after its mark, and the tokens after it. A document without
a mark is not empty. -/
def content (hasMark : Bool) (ts : List Token) (handles : List (String × String)) :
    Except Fault (Node × List Token) := do
  let isEmpty := (ts.head?.map endsDocument).getD true
  if hasMark && isEmpty then return (.absent, ts)
  let (x, c) ← (node (maxDepth ts.length) .block).run ⟨ts, [], handles⟩
  return (x, c.tokens)

/-- The node of the only document, if there is one. -/
def document (ts : List Token) : Except Fault (Option Node) := do
  match ts with
  | [] => return none
  | t :: _ =>
    let (ds, rest) := cutDirectives ts
    let isMarked := t == .documentStart || !ds.isEmpty
    if isMarked && rest.head? != some .documentStart then throw .malformed
    let handles := (← declaredHandles ds false []) ++ standardHandles
    let (x, rest) ← content isMarked (if isMarked then rest.drop 1 else ts) handles
    if !(rest.dropWhile (· == .documentEnd)).isEmpty then throw .malformed
    return some x

end Compose

mutual

/-- The value of a node. The members of a table have keys that are no collections. -/
def Node.value : Node → Except Fault Datum
  | .scalar tag text => scalarValue tag text
  | .list tag ns =>
    match tag with
    | .list => do return .list (← Node.values ns)
    | .orderedTable | .pairs => do return .list (← Node.pairs ns)
    | _ => .error .malformed
  | .table tag ms =>
    match tag with
    | .table => do return .table (← Node.members ms [])
    | .set => do return .set ((← Node.members ms []).map (·.1))
    | _ => .error .malformed
  | .enclosing kind => .ok (.enclosing kind)

/-- The values of nodes. -/
def Node.values : List Node → Except Fault (List Datum)
  | [] => .ok []
  | n :: ns => do
    let v ← Node.value n
    return v :: (← Node.values ns)

/-- The pairs of nodes that are tables with one member each. -/
def Node.pairs : List Node → Except Fault (List Datum)
  | [] => .ok []
  | .table _ [(k, v)] :: ns => do
    let a ← Node.value k
    let b ← Node.value v
    return .pair a b :: (← Node.pairs ns)
  | _ :: _ => .error .malformed

/-- The members of a table; of two with the same key the later counts. -/
def Node.members : List (Node × Node) → List (Datum × Datum) → Except Fault (List (Datum × Datum))
  | [], done => .ok done
  | (k, v) :: ms, done => do
    if k.isCollection then throw .malformed
    let key ← Node.value k
    let value ← Node.value v
    Node.members ms (Datum.setMember key value done)

end

/-- The value of a YAML text; an empty one has none. -/
def parse (text : String) : Except Fault Datum := do
  match ← Compose.document (← tokens text.toList) with
  | none => return .null
  | some n => n.value

end SourceChange.Yaml
