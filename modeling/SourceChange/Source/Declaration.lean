import SourceChange.Source.Import
import SourceChange.Source.Tree

/-!
The names that patterns bind and scopes declare.

A scope is a program or a block. `Tree.declaredNames` lists the block-scoped names that a scope
declares directly, with repetitions; the parameters of a function count as declared in its body.
-/

namespace SourceChange.Syntax.Node

/-- The binding names of a node of the given kind, from those of its children. -/
def boundIn (self : Node) (below : List (Node × List Node)) : List Node :=
  let ofRole (r : Role) : List Node :=
    ((below.find? (·.1.role == some r)).map (·.2)).getD []
  let ofNamed : List Node := (below.filter (·.1.kind.isNamed)).flatMap (·.2)
  match self.kind with
  | .construct .identifier => [self]
  | .construct .shorthandPropertyIdentifierPattern => [self]
  | .construct .pairPattern => ofRole .value
  | .construct .assignmentPattern => ofRole .left
  | .construct .objectAssignmentPattern => ofRole .left
  | .construct .requiredParameter | .construct .optionalParameter =>
    if below.any (·.1.role == some .pattern) then ofRole .pattern
    else ((below.find? (·.1.kind.isNamed)).map (·.2)).getD []
  | .construct .arrayPattern | .construct .objectPattern | .construct .restPattern
  | .construct .formalParameters => ofNamed
  | _ => []

mutual

/-- The nodes that stand for the names a pattern or a parameter list binds. -/
def boundNodes : Node → List Node
  | mk k r s cs => boundIn (mk k r s cs) (boundEach cs)

/-- Siblings, each with the names bound in it. -/
def boundEach : List Node → List (Node × List Node)
  | [] => []
  | n :: ns => (n, boundNodes n) :: boundEach ns

end

end SourceChange.Syntax.Node

namespace SourceChange.Source.Tree

open Syntax

/-- The names that a pattern, or no pattern, binds. -/
def patternNames (t : Tree) (p : Option Node) : List String :=
  match p with
  | none => []
  | some n => n.boundNodes.map t.nodeText

end SourceChange.Source.Tree

namespace SourceChange.Source

open Syntax

/-- Programs and blocks. -/
def isScope (n : Node) : Bool := n.isOneOf [.program, .statementBlock]

/-- Functions of every form. The keyword `function` counts as one, too. -/
def isFunction (n : Node) : Bool :=
  n.isOneOf [.functionDeclaration, .generatorFunctionDeclaration, .arrowFunction,
    .functionExpression, .generatorFunction, .methodDefinition] || n.isToken "function"

namespace Tree

/-- The names that the declarators of a declaration bind. -/
def declaratorNames (t : Tree) (declaration : Node) : List String :=
  (declaration.named.filter (·.is .variableDeclarator)).flatMap fun d =>
    t.patternNames (d.child? .name)

/-- The names that a declaration, not an export, declares in its scope. -/
def plainBindings (t : Tree) (statement : Node) : List String :=
  if statement.is .lexicalDeclaration then t.declaratorNames statement
  else if statement.isOneOf
      [.functionDeclaration, .generatorFunctionDeclaration, .classDeclaration] then
    match t.roleText? statement .name with
    | some name => if name == "" then [] else [name]
    | none => []
  else if statement.is .importStatement then (t.importOf statement).locals
  else []

/-- The names that a statement declares in its scope. -/
def statementBindings (t : Tree) (statement : Node) : List String :=
  if statement.is .exportStatement then
    match statement.child? .declaration with
    | some d => t.plainBindings d
    | none => []
  else t.plainBindings statement

/-- The block-scoped names that a scope declares directly, given the node above it. -/
def declaredNames (t : Tree) (scope : Node) (parent : Option Node) : List String :=
  let params :=
    match parent with
    | some p =>
      if scope.is .statementBlock && isFunction p then t.patternNames p.parameters? else []
    | none => []
  params ++ scope.named.flatMap t.statementBindings

/-- The names declared at module scope, with repetitions. -/
def moduleNames (t : Tree) : List String := t.declaredNames t.rootD none

/-- The occurrences of names after their first one. -/
def repeats : List String → List String → List String
  | _, [] => []
  | seen, x :: xs => if seen.contains x then x :: repeats seen xs else repeats (x :: seen) xs

/-- The redeclarations of all scopes: each name as often as scopes declare it again. -/
def redeclarations (t : Tree) : List String :=
  (t.rootD.visits.filter (isScope ·.node)).flatMap fun v =>
    repeats [] (t.declaredNames v.node v.parent?)

/-- How a variable is bound. -/
inductive BindingForm where
  | simple
  | arrayDestructure
  | objectDestructure
  | objectDestructureRenamed
  deriving DecidableEq, Repr

/-- One name bound by a declarator. -/
structure Binding where
  handle : Handle
  name : String
  form : BindingForm
  /-- The key that the pattern renames, if it does. -/
  key : Option String
  deriving Repr

/-- The names that a member of an object pattern binds. -/
def memberBindings (t : Tree) (h : Handle) (member : Node) : List Binding :=
  let plain := (t.patternNames (some member)).map fun n => ⟨h, n, .objectDestructure, none⟩
  if member.is .pairPattern then
    match member.child? .value, member.child? .key with
    | some value, some key =>
      if value.is .identifier then
        [⟨h, t.nodeText value, .objectDestructureRenamed, some (t.nodeText key)⟩]
      else plain
    | _, _ => plain
  else plain

/-- The names bound by declarators, in document order. -/
def bindings (t : Tree) : List Binding :=
  (t.rootD.walk.filter (·.is .variableDeclarator)).flatMap fun d =>
    let h := t.handle d
    match d.child? .name with
    | none => []
    | some name =>
      if name.is .identifier then [⟨h, t.nodeText name, .simple, none⟩]
      else if name.is .arrayPattern then
        (t.patternNames (some name)).map fun n => ⟨h, n, .arrayDestructure, none⟩
      else if name.is .objectPattern then name.named.flatMap (t.memberBindings h)
      else []

/-- Whether a statement is a directive: a lone string. -/
def isDirective (statement : Node) : Bool :=
  statement.is .expressionStatement &&
    match statement.named with
    | [s] => s.is .stringLiteral
    | _ => false

/-- The end of the directives that a list of statements starts with, comments between them skipped;
`offset` if there are none. -/
def directivesEndFrom (offset : Nat) : List Node → Nat
  | [] => offset
  | n :: ns =>
    if n.is .comment then directivesEndFrom offset ns
    else if isDirective n then directivesEndFrom n.stop ns
    else offset

/-- The byte offset just past the directives, such as `"use client"`, at the start of a module. -/
def directivesEnd (t : Tree) : Nat := directivesEndFrom 0 t.rootD.named

end Tree

end SourceChange.Source
