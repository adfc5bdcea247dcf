import SourceChange.Syntax.Grammar.Modules

/-!
Statements.

A statement that needs a semicolon may end at a line break instead; then comments on the same line
belong to it.
-/

namespace SourceChange.Syntax

namespace Rules

open Parse

/-- An expression as a statement. -/
def expressionStatement (g : Rules) : Parse Node := do
  let e ← g.sequence
  let stop ← semicolon .expression
  node Construct.expressionStatement (e :: stop)

/-- A statement that may give a label or a value after its keyword. Where a line break can end the
statement, nothing follows the keyword. -/
def jump (kind : Construct) (w : String) (rule : Cursor.BreakRule) (value : Parse Node) :
    Parse Node := do
  let k ← keyword w
  complete
  (do
    let stop ← semicolon .plain
    node kind (k :: stop))
  <|> (do
    let v ← value
    let stop ← semicolon rule
    node kind (k :: v :: stop))

/-- Reads a part that the given word starts. Where that word comes next, there has to be such a
part. -/
def ifWord (w : String) (p : Parse Node) : Parse (List Node) := do
  if (← nextName) == some w then return [← p] else return []

/-- `if` with its branches. -/
def ifStatement (g : Rules) : Parse Node := do
  let k ← keyword "if"
  let cond ← g.parenthesized
  let yes ← g.statement
  let no ← ifWord "else" do
    let e ← keyword "else"
    let s ← g.statement
    node Construct.elseClause [e, s]
  node Construct.ifStatement (k :: cond :: yes :: no)

/-- The statements of one case. -/
def caseBody (g : Rules) : Parse (List Node) :=
  many do
    notAhead (keyword "case" <|> keyword "default" <|> mark "\x7d")
    return [← asRole .body g.statement]

/-- `switch` with its cases. -/
def switchStatement (g : Rules) : Parse Node := do
  let k ← keyword "switch"
  let value ← asRole .value g.parenthesized
  let left ← mark "\x7b"
  let cases ← blocked <| many1 <|
    (do
      let c ← keyword "case"
      let v ← asRole .value (bracketed g.sequence)
      let colon ← mark ":"
      let body ← g.caseBody
      node Construct.switchCase (c :: v :: colon :: body))
    <|> (do
      let d ← keyword "default"
      let colon ← mark ":"
      let body ← g.caseBody
      node Construct.switchDefault (d :: colon :: body))
  let right ← mark "\x7d"
  let body ← node Construct.switchBody (left :: cases ++ [right])
  node Construct.switchStatement [k, value, body.withRole .body]

/-- The word between the two parts of the head of a loop over a collection. -/
def loopWord : Parse Node := joint "in" <|> joint "of"

/-- A variable with a first value in the head of a loop over a collection. The first value and the
collection have been read as one expression. -/
def forVarHead (g : Rules) : Parse (List Node) := do
  let d ← keyword "var"
  let target ← asRole .left (g.bindingTarget [])
  let eq ← assignMark
  match ← bracketed g.expression with
  | .mk (.construct .binaryExpression) _ _ [first, .mk (.token "in") r s [], rest] =>
    return [d, target, eq, first.withRole .value, .mk (.token "in") r s [], rest]
  | _ => failure

/-- `for` over the members of a collection. -/
def forInStatement (g : Rules) : Parse Node := do
  let k ← keyword "for"
  let await ← opt1 (keyword "await")
  let left ← mark "("
  let plain : Parse (List Node) :=
    (do
      let d ← oneKeyword ["let", "const"]
      let words := if d.isToken "let" then "of" :: reservedAfter d else reservedAfter d
      let target ← asRole .left (g.bindingTarget words)
      trailing .plain
      return [d, target, ← loopWord])
    <|> (do
      let d ← keyword "var"
      let target ← asRole .left (g.bindingTarget [])
      let init ← opt g.initializer
      sameStatement (if init.isEmpty then .plain else .expression)
      return d :: target :: init ++ [← loopWord])
    <|> (do
      notAhead (oneKeyword ["var", "const"])
      let target ← asRole .left (bracketed (g.target (g.parenthesized <|> g.destructuring)))
      return [target, ← loopWord])
  let head ←
    (do
      let head ← plain
      return head ++ [← bracketed g.sequence])
    <|> g.forVarHead
  let right ← mark ")"
  let body ← asRole .body g.statement
  node Construct.forInStatement (k :: await ++ left :: head ++ [right, body])

/-- A lone semicolon. -/
def emptyStatement : Parse Node := do
  let s ← mark ";"
  node Construct.emptyStatement [s]

/-- `for` with a start, a condition and a step. -/
def forStatement (g : Rules) : Parse Node := do
  let k ← keyword "for"
  let left ← mark "("
  let ended : Parse (List Node) :=
    (do return [← emptyStatement])
    <|> (do
      let e ← bracketed g.sequence
      return [e, ← mark ";"])
  let start ← (do return [← g.variableDeclaration]) <|> (do
    notAhead (oneKeyword ["var", "const"])
    ended)
  let cond ← ended
  let step ← opt1 (bracketed g.sequence)
  let right ← mark ")"
  let body ← asRole .body g.statement
  node Construct.forStatement (k :: left :: start ++ cond ++ step ++ [right, body])

/-- `while`. -/
def whileStatement (g : Rules) : Parse Node := do
  let k ← keyword "while"
  let cond ← g.parenthesized
  let body ← asRole .body g.statement
  node Construct.whileStatement [k, cond, body]

/-- `do` with its condition after it. -/
def doStatement (g : Rules) : Parse Node := do
  let k ← keyword "do"
  let body ← asRole .body g.statement
  let w ← keyword "while"
  let cond ← g.parenthesized
  complete
  let stop ← opt (semicolon .plain)
  node Construct.doStatement ([k, body, w, cond] ++ stop)

/-- `try` with its handlers. -/
def tryStatement (g : Rules) : Parse Node := do
  let k ← keyword "try"
  let body ← asRole .body (g.block .part)
  let handler ← ifWord "catch" do
    let c ← keyword "catch"
    let param ← opt do
      let left ← mark "("
      let (p, t) ← bracketed do
        let p ← asRole .parameter (g.bindingTarget [])
        return (p, ← opt1 g.typeAscription)
      let right ← mark ")"
      return left :: p :: t ++ [right]
    let body ← asRole .body (g.block .part)
    node Construct.catchClause (c :: param ++ [body])
  let finalizer ← ifWord "finally" do
    let f ← keyword "finally"
    let body ← asRole .body (g.block .part)
    node Construct.finallyClause [f, body]
  node Construct.tryStatement (k :: body :: handler ++ finalizer)

/-- `with`. -/
def withStatement (g : Rules) : Parse Node := do
  let k ← keyword "with"
  let value ← g.parenthesized
  let body ← asRole .body g.statement
  node Construct.withStatement [k, value, body]

/-- A statement with a label. -/
def labeledStatement (g : Rules) : Parse Node := do
  let label ← nameBut Words.operand Construct.statementIdentifier
  complete
  let colon ← mark ":"
  let body ← asRole .body g.statement
  node Construct.labeledStatement [label, colon, body]

/-- A declaration, unless it continues as an expression. -/
def declarationStatement (g : Rules) : Parse Node :=
  (g.declaration .value).overruled onlyContinues g.expressionStatement

/-- A namespace as a statement. Where a line break ends it, it is an expression. -/
def namespaceStatement (g : Rules) : Parse Node :=
  let whole : Parse Node := do
    let e ← g.namespaceExpression
    let ends : Bool := (← get).mustStop .expression
    if ends then
      let stop ← semicolon .expression
      node Construct.expressionStatement (e :: stop)
    else return e
  whole.overruled onlyContinues g.expressionStatement

/-- A block, unless its braces are those of an object. -/
def blockStatement (g : Rules) : Parse Node := do
  if ← g.objectAhead then g.expressionStatement <|> g.block .statement
  else
    let empty ← isAhead do
      let _ ← mark "\x7b"
      let _ ← mark "\x7d"
      require (← onlyContinues)
    if empty then g.expressionStatement else g.block .statement

/-- A statement that starts with a word. -/
def wordStatement (g : Rules) (w : String) : Parse Node :=
  let plain := g.labeledStatement <|> g.expressionStatement
  let label := leaf Construct.statementIdentifier name?
  match w with
  | "import" => g.importStatement <|> importAlias ["type", "typeof"] <|> g.expressionStatement
  | "export" => do
    let exports ← isAhead do
      let _ ← keyword "export"
      sameStatement .expression
      match ← nextName with
      | some w => require !(["in", "instanceof", "satisfies"].contains w)
      | none => nextIn ['\x7b', '@'] <|> (do let _ ← markBefore "*" ['*', '='] <|> assignMark)
    if exports then g.exportRule else plain
  | "debugger" => do
    let k ← keyword "debugger"
    let stop ← semicolon .plain
    node Construct.debuggerStatement (k :: stop)
  | "if" => g.ifStatement
  | "switch" => g.switchStatement
  | "for" => g.forInStatement <|> g.forStatement
  | "while" => g.whileStatement
  | "do" => g.doStatement
  | "try" => g.tryStatement
  | "with" => g.withStatement
  | "break" => jump .breakStatement "break" .plain label
  | "continue" => jump .continueStatement "continue" .plain label
  | "return" => jump .returnStatement "return" .expression g.sequence
  | "throw" => do
    let k ← keyword "throw"
    let e ← g.sequence
    let stop ← semicolon .expression
    node Construct.throwStatement (k :: e :: stop)
  | "const" | "var" | "abstract" | "interface" | "enum" => g.declaration .part
  | _ => do
    if ← declarationAhead then
      match w with
      | "namespace" => g.namespaceStatement
      | "class" | "function" | "async" => g.declarationStatement
      | _ => g.declaration .part
    else plain

/-- A statement. -/
def statementRule (g : Rules) : Parse Node := blocked do
  let next ← upcoming
  match name? next with
  | some (t, _) => g.wordStatement (String.ofList t)
  | none =>
    match next.head? with
    | some '\x7b' => g.blockStatement
    | some ';' => emptyStatement
    | some '@' => g.exportRule <|> g.declarationStatement <|> g.expressionStatement
    | some _ => g.expressionStatement
    | none => failure

end Rules

end SourceChange.Syntax
