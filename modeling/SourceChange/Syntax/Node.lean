import SourceChange.Syntax.Kind

/-!
Syntax trees.

A `Node` carries its kind, its role in the parent, the half-open range of UTF-8 bytes it covers and
its children, tokens included. `Node.walk` lists a node and everything below it in document order;
`Node.visits` lists the same nodes together with the ancestors of each, nearest first.
-/

namespace SourceChange.Syntax

/-- A half-open range of bytes. -/
structure Span where
  start : Nat
  stop : Nat
  deriving DecidableEq, Repr

namespace Span

/-- `s.contains t` holds when `t` lies within `s`. -/
def contains (s t : Span) : Bool := s.start ≤ t.start && t.stop ≤ s.stop

end Span

/-- A node of a syntax tree. -/
inductive Node where
  | mk (kind : Kind) (role : Option Role) (span : Span) (children : List Node)
  deriving Repr

namespace Node

def kind : Node → Kind
  | mk k _ _ _ => k

def role : Node → Option Role
  | mk _ r _ _ => r

def span : Node → Span
  | mk _ _ s _ => s

def children : Node → List Node
  | mk _ _ _ cs => cs

def start (n : Node) : Nat := n.span.start

def stop (n : Node) : Nat := n.span.stop

/-- `n.is c` holds when `n` is the construct `c`. -/
def is (n : Node) (c : Construct) : Bool := n.kind == .construct c

/-- `n.isOneOf cs` holds when `n` is one of the constructs `cs`. -/
def isOneOf (n : Node) (cs : List Construct) : Bool := cs.any n.is

/-- `n.isToken t` holds when `n` is the token spelled `t`. -/
def isToken (n : Node) (t : String) : Bool := n.kind == .token t

/-- The children that are constructs; a comment is one. -/
def named (n : Node) : List Node := n.children.filter (·.kind.isNamed)

/-- The named children other than comments. -/
def parts (n : Node) : List Node := n.named.filter fun c => !c.is .comment

/-- The first child that plays the given role. -/
def child? (n : Node) (r : Role) : Option Node := n.children.find? (·.role == some r)

/-- The parameters of a function: the list in parentheses, or the bare name of a short arrow
function. -/
def parameters? (n : Node) : Option Node := n.child? .parameters <|> n.child? .parameter

/-- Whether some child is the token `t`. -/
def hasToken (n : Node) (t : String) : Bool := n.children.any (·.isToken t)

/-- The same node in another role. -/
def withRole (r : Role) : Node → Node
  | mk k _ s cs => mk k (some r) s cs

/-- The same node under another kind. -/
def withKind (k : Kind) : Node → Node
  | mk _ r s cs => mk k r s cs

mutual

/-- A node and all nodes below it, in document order. -/
def walk : Node → List Node
  | mk k r s cs => mk k r s cs :: walkAll cs

/-- The nodes of several trees, one tree after the other. -/
def walkAll : List Node → List Node
  | [] => []
  | n :: ns => walk n ++ walkAll ns

end

mutual

/-- The nodes that satisfy `p` and lie below no other such node, in document order. -/
def outermost (p : Node → Bool) : Node → List Node
  | mk k r s cs => if p (mk k r s cs) then [mk k r s cs] else outermostAll p cs

/-- The outermost nodes of several trees, one tree after the other. -/
def outermostAll (p : Node → Bool) : List Node → List Node
  | [] => []
  | n :: ns => outermost p n ++ outermostAll p ns

end

/-- A node met on the way through a tree, with its ancestors, nearest first. -/
structure Visit where
  node : Node
  ancestors : List Node

namespace Visit

/-- The node directly above. -/
def parent? (v : Visit) : Option Node := v.ancestors.head?

end Visit

mutual

/-- A node and all nodes below it in document order, each with its ancestors. -/
def visitsUnder (above : List Node) : Node → List Visit
  | mk k r s cs => ⟨mk k r s cs, above⟩ :: visitsUnderAll (mk k r s cs :: above) cs

/-- The visits of several siblings under the same ancestors. -/
def visitsUnderAll (above : List Node) : List Node → List Visit
  | [] => []
  | n :: ns => visitsUnder above n ++ visitsUnderAll above ns

end

/-- The visits of a whole tree. -/
def visits (root : Node) : List Visit := visitsUnder [] root

mutual

/-- Puts an extra node, such as a comment, below the smallest node that covers it. -/
def insert (extra : Node) : Node → Node
  | mk k r s cs =>
    match insertBelow extra cs with
    | some cs' => mk k r s cs'
    | none => mk k r s (insertAmong extra cs)

/-- Puts the extra node into the first sibling that covers it, if there is one. -/
def insertBelow (extra : Node) : List Node → Option (List Node)
  | [] => none
  | n :: ns =>
    if n.span.contains extra.span then some (insert extra n :: ns)
    else (insertBelow extra ns).map (n :: ·)

/-- Puts the extra node before the first sibling that starts after it. -/
def insertAmong (extra : Node) : List Node → List Node
  | [] => [extra]
  | n :: ns => if extra.start < n.start then extra :: n :: ns else n :: insertAmong extra ns

end

/-- The smallest node on the way down from `n` that covers the range, where a child is entered when
it reaches past the start of the range (an empty child need only touch it). The result is the list of
nodes on that way, the smallest first. -/
def coverFrom (s : Span) (above : List Node) : Nat → Node → List Node
  | 0, n => n :: above
  | depth + 1, n =>
    let enters (c : Node) : Bool :=
      s.stop ≤ c.stop && (if c.start = c.stop then s.start ≤ c.stop else s.start < c.stop)
    match n.children.find? enters with
    | some c => if c.start ≤ s.start then coverFrom s (n :: above) depth c else n :: above
    | none => n :: above

mutual

/-- The number of levels of a tree. -/
def depth : Node → Nat
  | mk _ _ _ cs => depthAll cs + 1

/-- The number of levels of the highest of several trees. -/
def depthAll : List Node → Nat
  | [] => 0
  | n :: ns => max (depth n) (depthAll ns)

end

/-- The smallest node that covers a range and the nodes around it, smallest first. -/
def cover (n : Node) (s : Span) : List Node := coverFrom s [] n.depth n

end Node

end SourceChange.Syntax
