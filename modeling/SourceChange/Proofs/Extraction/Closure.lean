import SourceChange.Proofs.Extraction.Reimports

/-!
What the new component of an extraction can refer to.

`Tree.boundBy` gives the names that a node binds for what stands in it, and a name refers to the nearest
node around it that binds it. A reference in the markup that leads out of it has to find its binding in the
new file: among the props, or among the imports if an import binds it. It does so iff its name is not bound
again in the markup, is no global name, and is seen: `Tree.seenIn` gives the names that are seen of those
that a node binds.
-/

namespace SourceChange

namespace Syntax.Node

open Source

mutual

/-- A node and what stands in it, other functions left out. -/
def outsideFunctions : Node → List Node
  | mk k r s cs => mk k r s cs :: outsideFunctionsAll cs

/-- The same for several nodes, functions left out. -/
def outsideFunctionsAll : List Node → List Node
  | [] => []
  | n :: ns => (if isFunction n then [] else outsideFunctions n) ++ outsideFunctionsAll ns

end

mutual

/-- The declaration that a statement is, or that it exports or marks as declared elsewhere. -/
def declarations : Node → List Node
  | mk k r s cs =>
    if (mk k r s cs).isOneOf [.exportStatement, .ambientDeclaration, .expressionStatement] then
      declarationsAll cs
    else [mk k r s cs]

def declarationsAll : List Node → List Node
  | [] => []
  | n :: ns => declarations n ++ declarationsAll ns

end

end Syntax.Node

open Source Syntax Syntax.Node

namespace Source.Tree

/-- The name that stands first in a declaration. -/
def firstName (t : Tree) (n : Node) : List String := ((n.walk.find? (·.is .identifier)).map t.nodeText).toList

/-- The names of the variables of a declaration. -/
def variableNames (t : Tree) (declaration : Node) : List String :=
  declaration.named.flatMap fun d => t.patternNames (d.child? .name)

/-- The names that a declaration declares in the scope that it stands in. -/
def introducedBy (t : Tree) (d : Node) : List String :=
  if d.isOneOf [.lexicalDeclaration, .variableDeclaration] then t.variableNames d
  else if d.isOneOf [.functionDeclaration, .generatorFunctionDeclaration, .functionSignature,
      .classDeclaration, .abstractClassDeclaration, .enumDeclaration] then
    (t.roleText? d .name).toList
  else if d.is .importStatement then
    (t.importOf d).locals ++ (d.named.filter (·.is .importRequireClause)).flatMap t.firstName
  else if d.is .importAlias then t.firstName d
  else if d.isOneOf [.moduleDeclaration, .internalModule] then ((d.child? .name).map t.firstName).getD []
  else []

/-- The names that statements declare in the scope that they stand in. -/
def introduced (t : Tree) (statements : List Node) : List String :=
  (declarationsAll statements).flatMap t.introducedBy

section Names

variable {t : Tree} {n : Node} {x : String}

end Names

end Source.Tree

namespace Extraction

open Source.Tree

variable {t : Tree} {n : Node} {v w : Visit} {x : String}

variable {d : Draft} {e : Extraction} {r : Source.Reader} {o : Outcome}

end Extraction

end SourceChange
