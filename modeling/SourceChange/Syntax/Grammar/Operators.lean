import SourceChange.Syntax.Grammar.Operands

/-!
Expressions: operands with the operators before, between and after them.

An operand takes what follows it as long as the construct that waits for the operand, its `Pending`
construct, lets it; then that construct is complete and may itself take what follows.
-/

namespace SourceChange.Syntax

namespace Pending

/-- Whether an operand of the pending construct may be called not null, or be given a type. -/
def takesAssertion : Pending → Bool
  | free => true
  | awaited => true
  | binary level => level == 11
  | _ => false

/-- Whether an operand of the pending construct may be counted up or down. -/
def takesIncrement (p : Pending) : Bool := p != increment && p != asserted

/-- Whether an operand of the pending construct takes a binary operator of the given level. Powers
group to the right, the others to the left. -/
def takesBinary : Pending → Nat → Bool
  | free, _ => true
  | binary pending, level => pending < level || (pending == level && level == 11)
  | _, _ => false

/-- Whether an operand of the pending construct takes an opening angle bracket. -/
def takesAngle : Pending → Bool
  | free => true
  | asserted => true
  | binary level => level ≤ 7
  | _ => false

end Pending

namespace Rules

open Parse

/-- The binary operators by how tightly they bind. Longer spellings come first, so that the first
one that fits is the longest. -/
def binaryOperators : List (String × Nat) :=
  [(">>>", 8), ("===", 6), ("!==", 6), ("**", 11), ("<<", 8), (">>", 8), ("<=", 7), (">=", 7),
    ("==", 6), ("!=", 6), ("&&", 2), ("||", 1), ("??", 0), ("<", 7), (">", 7), ("+", 9), ("-", 9),
    ("*", 10), ("/", 10), ("%", 10), ("&", 5), ("^", 4), ("|", 3)]

/-- The operators that assign. -/
def assignOperators : List String :=
  [">>>=", "**=", "<<=", ">>=", "&&=", "||=", "??=", "+=", "-=", "*=", "/=", "%=", "&=", "^=", "|="]

/-- The words that are operators, with their levels if they are binary. Longer words come first. -/
def wordOperators : List (String × Option Nat) :=
  [("instanceof", some 7), ("in", some 7), ("as", none), ("satisfies", none)]

/-- The entry of a table whose text comes first in the rest of the source. -/
def spelled? (table : List (String × α)) (cs : List Char) : Option (String × α) :=
  table.find? fun (o, _) => (afterPrefix? o.toList cs).isSome

/-- The operator that assigns at the front of a text. -/
def assignOperator? (cs : List Char) : Option String :=
  assignOperators.find? fun o => (afterPrefix? o.toList cs).isSome

/-- Type arguments after an operand, where `<` might also be an operator. The first word must not be
one that only an expression starts with, and after a lone name no longer operator may start at the
closing bracket. -/
def operandTypeArguments (g : Rules) : Parse Node := do
  let left ← mark "<"
  let w ← nextName
  require !(("import" :: Words.onlyOperand).contains (w.getD ""))
  let items ← within (fun _ => { Mode.brackets with inValue := true }) do
    let items ← commaItems do return [← g.type]
    return items ++ (← opt1 (mark ","))
  let next ← upcoming
  match items with
  | [t] =>
    require !(t.isOneOf [.typeIdentifier, .nestedTypeIdentifier] &&
      ((afterPrefix? ['>', '>'] next).isSome || (afterPrefix? ['>', '='] next).isSome))
  | _ => pure ()
  let right ← mark ">"
  complete
  node Construct.typeArguments (left :: items ++ [right])

/-- Whether a text starts with the word that introduces interfaces, followed by what could start a
type. -/
def startsInterfaces (cs : List Char) : Bool :=
  match name? cs with
  | some (t, r) =>
    t == "implements".toList &&
      !(((Cursor.dropTrivia r.length false r).2.head?.map
        [',', ')', ']', '\x7d', ';', ':', '=', '.', '>', '%', '^', '/'].contains).getD true)
  | none => false

/-- Whether a text starts with something that may start an operand and need not continue one. -/
def mayStartOperand (cs : List Char) : Bool :=
  match cs with
  | '!' :: r => r.head? != some '='
  | '+' :: r => r.head? != some '='
  | '-' :: r => r.head? != some '='
  | '/' :: r => r.head? != some '='
  | '<' :: r => r.head? != some '=' && r.head? != some '<'
  | '.' :: d :: _ => d.isDigit
  | c :: _ =>
    if (name? cs).isSome then
      (spelled? wordOperators cs).isNone && !startsInterfaces cs
    else c.isDigit || ['\x22', '\x27', '\x60', '\x7b', '@', '#', '~'].contains c
  | [] => false

/-- Succeeds where an expression, or several that commas separate, reach beyond the offset `stop` and
the mark there. -/
def reachesBeyond (g : Rules) (stop : Nat) : Parse Unit := do
  let _ ← g.expression
  let _ ← many do
    let here : Nat := (← get).offset
    require (here < stop)
    let comma ← mark ","
    return [comma, ← g.expression]
  let here : Nat := (← get).offset
  require (stop + 1 < here)

/-- `<` as an operator. Its right operand ends at the offset `stop`, where `>` is an operator with a
right operand of its own; or the operand ends before, and what follows it reaches beyond that
offset. -/
def comparisonChain (g : Rules) (stop : Nat) (n : Node) : Parse Node := do
  let m ← mark "<"
  let beyond ← isAhead (g.reachesBeyond stop)
  let right ← g.run (.operand (.binary 7))
  let reached : Nat := (← get).skip.offset
  if reached == stop then
    let _ ← ahead do
      let _ ← mark ">"
      g.run (.operand (.binary 7))
  else
    notAhead (nextIn ['>'])
    require beyond
  if right.isOneOf [.identifier, .numberLiteral] then fullWords
  node Construct.binaryExpression [n, m, right]

/-- Type arguments after an operand: those of a call, or arguments alone. An operand after a type in
angle brackets has no call of this kind. -/
def instantiation (g : Rules) (pending : Pending) (n : Node) : Parse Node := fun c =>
  match g.operandTypeArguments c with
  | none => none
  | some (targs, c') =>
    match c'.skip.rest with
    | '(' :: _ =>
      (do
        require (pending != Pending.asserted)
        let args ← g.arguments
        node Construct.callExpression [n.withRole .function, targs, args.withRole .arguments]) c'
    | '\x60' :: _ => none
    | next =>
      let alone : Parse Node := node Construct.instantiationExpression [n, targs]
      let continues := (next.head?.map ['+', '-', '!', '<', '/'].contains).getD false
      let query := (targs.children[1]?.map (·.is .typeQuery)).getD false
      if mayStartOperand next && !(targs.hasToken "," && continues) && !query then
        match g.comparisonChain (targs.stop - 1) n c with
        | some r => some r
        | none => alone c'
      else alone c'

/-- A binary operator and its right operand. -/
def binaryStep (g : Rules) (pending : Pending) (n : Node) (o : String) (level : Nat) :
    Parse Node := do
  require (pending.takesBinary level || (o == "<" && pending.takesAngle))
  let m ← joint o
  if o == "<" then require !(Words.onlyType.contains ((← nextName).getD ""))
  let right ← g.run (.operand (.binary level))
  if o == "<" && right.isOneOf [.identifier, .numberLiteral] then fullWords
  node Construct.binaryExpression [n, m, right]

/-- The position of the mark of a condition, if that comes next. Only blank space that breaks lines
may stand directly before it. Where a line break could end the statement, no line comment may stand
between the break and the mark, and other comments there leave no trace. -/
def conditionPosition (c : Cursor) : Option Cursor :=
  let c' := c.skipComments (if c.mode.breaks then Cursor.isLineSpace else isSpace)
  let (seen, r) :=
    if c.mode.breaks then Cursor.dropTrivia c.size false c'.rest
    else (false, c'.rest.dropWhile isBlank)
  if seen then none else some (c'.past (c'.rest.take (c'.rest.length - r.length)) r)

/-- The mark of a condition. -/
def conditionMark : Parse Node := fun c =>
  match conditionPosition c with
  | none => none
  | some c' =>
    match c'.rest with
    | '?' :: r =>
      let digitAfterDot (r : List Char) : Bool := match r with
        | '.' :: d :: _ => d.isDigit
        | '.' :: [] => false
        | _ => true
      let next := r.dropWhile isBlank
      if r.head? == some '?' || !digitAfterDot r || !digitAfterDot next
        || (next.head?.map [':', ')', ','].contains).getD false then none
      else leafHere (.token "?") (exactly ['?']) c'
    | _ => none

/-- A condition with its two outcomes. -/
def conditional (g : Rules) (n : Node) : Parse Node := do
  let q ← conditionMark
  let yes ← within (fun _ => { Mode.brackets with inCondition := true }) g.expression
  let colon ← mark ":"
  let no ← g.expression
  node Construct.ternaryExpression [n, q, yes, colon, no]

/-- Whether a value can be assigned to an expression. -/
def isTarget (n : Node) : Bool :=
  n.isOneOf [.identifier, .memberExpression, .subscriptExpression, .nonNullExpression,
    .parenthesizedExpression]

/-- An assignment to an operand. -/
def assignment (g : Rules) (n : Node) : Parse Node := do
  require (isTarget n || n.is .undefinedLiteral)
  let eq ← assignMark
  let right ← g.expression
  node Construct.assignmentExpression [n.withRole .left, eq, right]

/-- A combined assignment to an operand. -/
def combinedAssignment (g : Rules) (n : Node) (o : String) : Parse Node := do
  require (isTarget n)
  let m ← mark o
  let right ← g.expression
  node Construct.augmentedAssignmentExpression [n.withRole .left, m, right]

/-- A type given to an operand by `as` or `satisfies`. -/
def typedOperand (g : Rules) (n : Node) (w : String) : Parse Node := do
  let k ← joint w
  let constant : Parse Node := do
    require (w == "as")
    let c ← keyword "const"
    require ((← nextName) != some "extends")
    return c
  let t ← constant <|> within (fun m => { m with inValue := true }) g.type
  fullWords
  node (if w == "as" then Construct.asExpression else Construct.satisfiesExpression) [n, k, t]

/-- One step from an operand of `pending` to a larger one. -/
def operandStep (g : Rules) (pending : Pending) (n : Node) : Parse Node := do
  sameStatement .expression
  let next ← upcoming
  match next.head? with
  | some '.' => do
    require (isPrimary n || pending != .asserted)
    g.memberStep n
  | some '[' => do
    require (isPrimary n || pending != .asserted)
    require !(n.isOneOf [.asExpression, .satisfiesExpression] &&
      (n.children.getLast?.map fun t => isPrimaryType t && !t.isToken "const").getD false)
    g.memberStep n
  | some '(' => do
    let args ← g.arguments
    node Construct.callExpression [n.withRole .function, args.withRole .arguments]
  | some '\x60' => do
    require (isPrimary n || n.is .newExpression)
    g.primaryStep n
  | some '?' =>
    (do
      require (isPrimary n || pending != .asserted)
      g.memberStep n)
    <|> (do
      require (isPrimary n)
      g.primaryStep n)
    <|> (match assignOperator? next with
      | some o => g.combinedAssignment n o
      | none => match next with
        | '?' :: '?' :: _ => g.binaryStep pending n "??" 0
        | _ => do
          require (pending == .free)
          g.conditional n)
  | some '=' =>
    match spelled? binaryOperators next with
    | some (o, level) => g.binaryStep pending n o level
    | none => g.assignment n
  | some _ =>
    match assignOperator? next with
    | some o => g.combinedAssignment n o
    | none =>
      match next with
      | '+' :: '+' :: _ | '-' :: '-' :: _ => do
        require pending.takesIncrement
        let m ← mark "++" <|> mark "--"
        node Construct.updateExpression [n, m]
      | _ =>
        match spelled? binaryOperators next with
        | some ("<", level) => do
          require pending.takesAngle
          g.instantiation pending n <|> g.binaryStep pending n "<" level
        | some (o, level) => g.binaryStep pending n o level
        | none =>
          match next with
          | '!' :: _ => do
            require pending.takesAssertion
            let m ← mark "!"
            node Construct.nonNullExpression [n, m]
          | _ =>
            match spelled? wordOperators next with
            | some (o, level) => do
              let full : Bool := (← get).fullWords
              require (!full || (← nextName) == some o)
              match level with
              | some level => g.binaryStep pending n o level
              | none => do
                require pending.takesAssertion
                g.typedOperand n o
            | none => failure
  | none => failure

/-- Succeeds where an operand could start, on the same line if a line break ends the statement. -/
def operandFollows : Parse Unit := do
  sameStatement .expression
  let next ← upcoming
  require (mayStartOperand next || (next.head?.map ['(', '['].contains).getD false)

/-- The word `new` as the name of a variable: no operand follows it. -/
def newName : Parse Node := do
  let n ← anyName Construct.identifier
  notAhead operandFollows
  notAhead do
    sameStatement .expression
    nextIn ['.']
  return n

/-- `new.target`. -/
def newTarget : Parse Node := do
  let k ← keyword "new"
  let dot ← mark "."
  let t ← keyword "target"
  node Construct.metaProperty [k, dot, t]

/-- `new C(…)`. The constructor is an operand with members and templates; a call of it is the
construction itself. -/
def construction (g : Rules) : Parse Node := do
  newTarget <|> (do
    let k ← keyword "new"
    sameStatement .expression
    require !(Words.joints.contains ((← nextName).getD ""))
    let c ← if (← nextName) == some "new" then newTarget <|> newName else g.primary
    let c ← extend (fun n => do
      sameStatement .expression
      g.memberStep n <|> g.primaryStep n) c
    complete
    let angle ← isAhead do
      notAhead (mark "<<" <|> mark "<=")
      mark "<"
    let targs ← if angle then (do return [← g.typeArguments]) else pure []
    let args ← opt1 do
      sameStatement .expression
      asRole .arguments g.arguments
    node Construct.newExpression (k :: c :: targs ++ args))

/-- An operand that starts with `new`: a construction, or a variable of that name where no operand
follows. -/
def newOperand (g : Rules) : Parse Node :=
  g.construction
  <|> g.shortArrow
  <|> newName

/-- `yield`, with or without a value. -/
def yieldExpression (g : Rules) : Parse Node := do
  let k ← keyword "yield"
  let value ← opt do
    sameStatement .expression
    require !(Words.joints.contains ((← nextName).getD ""))
    let star ← opt1 (mark "*")
    return star ++ [← g.expression]
  if value.isEmpty then notAhead operandFollows
  node Construct.yieldExpression (k :: value)

/-- A variable that is closed when its block ends. -/
def usingExpression (g : Rules) : Parse Node := do
  let k ← keyword "using"
  let left ← asRole .left (g.target (g.parenthesized <|> g.destructuring))
  let eq ← assignMark
  let right ← g.expression
  node Construct.assignmentExpression [k, left, eq, right]

/-- A namespace, which is an expression too. -/
def namespaceExpression (g : Rules) : Parse Node := do
  let k ← keyword "namespace"
  sameStatement .expression
  require !(Words.joints.contains ((← nextName).getD ""))
  let rest ← within (fun _ => .block) do
    let name ← asRole .name (Parse.string <|> modulePath true)
    return [name]
  let hasBody ← isAhead do
    sameStatement .expression
    nextIn ['\x7b']
  let body ← if hasBody then (do return [← asRole .body (g.block .value)]) else pure []
  node Construct.internalModule (k :: rest ++ body)

/-- A sign or a word before an operand. -/
def prefixed (g : Rules) (kind : Construct) (sign : Parse Node) (pending : Pending) :
    Parse Node := do
  let m ← sign
  let e ← g.run (.operand pending)
  node kind [m, e]

/-- An operand that starts with a word. -/
def wordOperand (g : Rules) (w : String) : Parse Node :=
  match w with
  | "typeof" | "void" | "delete" => g.prefixed .unaryExpression (keyword w) .unary
  | "await" => g.prefixed .awaitExpression (keyword "await") .awaited
  | "yield" => g.yieldExpression
  | "using" => g.usingExpression
  | "new" => g.newOperand
  | "namespace" => g.namespaceExpression <|> g.primary
  | _ => g.primary

/-- An operand before anything that follows it is applied to it. -/
def operandHead (g : Rules) : Parse Node := do
  let next ← upcoming
  match name? next with
  | some (t, _) => g.wordOperand (String.ofList t)
  | none =>
    match next with
    | '+' :: '+' :: _ | '-' :: '-' :: _ =>
      g.prefixed .updateExpression (mark "++" <|> mark "--") .increment
    | '!' :: _ => g.prefixed .unaryExpression (mark "!") .unary
    | '~' :: _ => g.prefixed .unaryExpression (mark "~") .unary
    | '-' :: _ => g.prefixed .unaryExpression (mark "-") .unary
    | '+' :: _ => g.prefixed .unaryExpression (mark "+") .unary
    | '<' :: _ =>
      g.primary
      <|> (if g.elements then g.run (.element false)
        else g.prefixed .typeAssertion g.typeArguments .asserted)
    | '#' :: _ => do
      let p ← privateName
      let k ← joint "in"
      let right ← g.run (.operand (.binary 7))
      node Construct.binaryExpression [p, k, right]
    | '\x7b' :: _ | '[' :: _ =>
      (do
        let n ← g.primary
        complete
        notAhead assignMark
        return n)
      <|> g.destructuringAssignment
    | _ => g.primary

/-- One step from an operand to a place that is reached from it, or towards one. -/
def placeStep (g : Rules) (n : Node) : Parse Node := do
  sameStatement .expression
  match (← upcoming).head? with
  | some '(' => do
    let args ← g.arguments
    node Construct.callExpression [n.withRole .function, args.withRole .arguments]
  | some '<' => do
    let call ← g.instantiation .free n
    require (call.is .callExpression)
    return call
  | some '!' => do
    let m ← markBefore "!" ['=']
    node Construct.nonNullExpression [n, m]
  | _ =>
    g.memberStep n <|> (do
      require (isPrimary n)
      g.primaryStep n)

/-- An operand of `pending` with what it takes. -/
def operandRule (g : Rules) (pending : Pending) : Parse Node := do
  let head ← g.operandHead
  complete
  extend (fun n => do
    let m ← if pending == .place then g.placeStep n else g.operandStep pending n
    complete
    return m) head

/-- One or more expressions separated by commas. -/
def sequenceRule (g : Rules) : Parse Node := do
  let first ← g.expression
  let more ← many do
    sameStatement .expression
    let comma ← mark ","
    return [comma, ← g.expression]
  if more.isEmpty then return first else node Construct.sequenceExpression (first :: more)

end Rules

end SourceChange.Syntax
