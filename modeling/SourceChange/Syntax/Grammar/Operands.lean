import SourceChange.Syntax.Grammar.Elements
import SourceChange.Syntax.Grammar.Types

/-!
Patterns, and operands: literals, objects, arrays, functions and classes, as they stand in expressions
before any operator is applied to them.
-/

namespace SourceChange.Syntax

namespace Rules

open Parse

/-! ### Patterns: what stands on the left of a declaration, a parameter or an assignment -/

/-- `...rest`. -/
def restPattern (g : Rules) : Parse Node := do
  let dots ← mark "..."
  let p ← g.pattern
  require !(p.is .restPattern)
  node Construct.restPattern [dots, p]

/-- A pattern, possibly with a default value; `...rest` has none. -/
def patternWithDefault (g : Rules) : Parse Node := do
  let left ← g.pattern
  (do
    require !(left.is .restPattern)
    let eq ← assignMark
    let right ← g.expression
    node Construct.assignmentPattern [left.withRole .left, eq, right]) <|> pure left

/-- A member of an object pattern; `destructuring` reads a pattern in brackets. -/
def patternMember (g : Rules) (destructuring : Parse Node) : Parse Node :=
  g.restPattern
  <|> (do
    let key ← asRole .key g.propertyName
    let colon ← mark ":"
    let value ← asRole .value g.patternWithDefault
    node Construct.pairPattern [key, colon, value])
  <|> (do
    let left ← anyName Construct.shorthandPropertyIdentifierPattern <|> destructuring
    (do
      let eq ← assignMark
      let right ← g.expression
      node Construct.objectAssignmentPattern [left.withRole .left, eq, right])
    <|> (do
      require (left.is .shorthandPropertyIdentifierPattern)
      return left))

/-- A pattern in brackets. -/
def arrayPattern (g : Rules) : Parse Node :=
  enclosed "[" "]" Construct.arrayPattern (commaHoles g.patternWithDefault)

/-- A pattern in braces. A member that is itself a pattern in brackets has a default value. -/
def objectPattern (g : Rules) : Parse Node :=
  enclosed "\x7b" "\x7d" Construct.objectPattern <| commaHoles <| g.patternMember <| do
    nextIn ['[', '\x7b']
    let p ← g.pattern
    require (p.isOneOf [.objectPattern, .arrayPattern])
    return p

/-- A pattern in braces or brackets. -/
def destructuring (g : Rules) : Parse Node := g.objectPattern <|> g.arrayPattern

/-- What a declaration binds: a name or a pattern in brackets. The given words are no names. -/
def bindingTarget (g : Rules) (reserved : List String) : Parse Node :=
  g.destructuring <|> nameBut reserved Construct.identifier

/-! ### Operands -/

/-- `...e`. -/
def spread (g : Rules) : Parse Node := do
  let dots ← mark "..."
  let e ← g.expression
  node Construct.spreadElement [dots, e]

/-- A member of an object: a pair, a method, a spread or the name of a variable. -/
def objectMember (g : Rules) : Parse Node :=
  g.spread
  <|> (do
    let ms ← modifiers .object
    let name ← g.propertyName
    let optional ← opt1 (mark "?")
    (do
      nextIn ['(', '<']
      let head ← g.callHead
      let body ← asRole .body (g.block .part)
      node Construct.methodDefinition
        (ms.map (·.2) ++ name.withRole .name :: optional ++ head ++ [body]))
    <|> (do
      require (ms.isEmpty && optional.isEmpty)
      (do
        let colon ← mark ":"
        let value ← asRole .value g.expression
        node Construct.pair [name.withRole .key, colon, value])
      <|> (do
        require (name.is .propertyIdentifier)
        return name.withKind Construct.shorthandPropertyIdentifier)))

/-- An object. -/
def object (g : Rules) : Parse Node :=
  enclosed "\x7b" "\x7d" Construct.objectLiteral (commaHoles g.objectMember)

/-- An array. -/
def array (g : Rules) : Parse Node :=
  enclosed "[" "]" Construct.arrayLiteral (commaHoles (g.spread <|> g.expression))

/-- An expression in parentheses, possibly with a type. -/
def parenthesized (g : Rules) : Parse Node :=
  enclosed "(" ")" Construct.parenthesizedExpression do
    let e ← g.sequence
    let t ← if e.is .sequenceExpression then pure [] else opt1 g.typeAscription
    return e :: t

/-- A function with a body, as an expression. -/
def functionExpression (g : Rules) : Parse Node := do
  let async ← opt1 (keyword "async")
  let k ← keyword "function"
  let star ← opt1 (mark "*")
  let name ← opt1 (asRole .name (anyName Construct.identifier))
  let head ← unbroken g.callHead
  let body ← asRole .body (g.block .value)
  let kind := if star.isEmpty then Construct.functionExpression else Construct.generatorFunction
  node kind (async ++ [k] ++ star ++ name ++ head ++ [body])

/-- An assignment to the parts of a value. -/
def destructuringAssignment (g : Rules) : Parse Node := do
  let left ← asRole .left g.destructuring
  let eq ← assignMark
  let right ← g.expression
  node Construct.assignmentExpression [left, eq, right]

/-- Whether the text after an opening brace can be the inside of an object that could not be taken
for statements: it starts with a comma, with three dots, or with a member that is more than a name.
A word that starts a statement or an expression is no name here. -/
def startsObject (cs : List Char) : Bool :=
  let after (r : List Char) (marks : List Char) : Bool :=
    ((Cursor.dropTrivia r.length false r).2.head?.map marks.contains).getD false
  match cs with
  | ',' :: _ => true
  | '.' :: '.' :: '.' :: _ => true
  | '[' :: _ => true
  | '#' :: _ => true
  | '*' :: _ => true
  | '\x22' :: _ => true
  | '\x27' :: _ => true
  | _ =>
    match name? cs with
    | some (t, r) =>
      let w := String.ofList t
      !(Words.operand ++ Words.statement).contains w &&
        !Cursor.endsHere .expression r.length r &&
        (after r [':', '(', '<'] ||
          (MemberStyle.object.allows [w] && startsMemberName (Cursor.dropTrivia r.length false r).2))
    | none => (number? cs).isSome

/-- An assignment to the parts of a value, the first of which is a name with a default value. That
could be a block too, if it were the only part. -/
def defaultsAhead (g : Rules) : Parse Unit := do
  let _ ← ahead do
    let _ ← mark "\x7b"
    let _ ← nameBut (Words.operand ++ Words.statement) Construct.identifier
    assignMark
  let _ ← ahead do
    let p ← g.objectPattern
    require (p.hasToken ",")
    assignMark

/-- Whether an object, or a pattern for one, rather than a block starts at the brace that comes
next. -/
def objectAhead (g : Rules) : Parse Bool := fun c =>
  match c.skip.rest with
  | '\x7b' :: r =>
    if startsObject (Cursor.dropTrivia r.length false r).2 then some (true, c)
    else isAhead g.defaultsAhead c
  | _ => some (false, c)

/-- The body of an arrow function: a block or an expression. Braces hold an object only if that could
not be a block. -/
def arrowBody (g : Rules) : Parse Node := do
  if (← upcoming).head? != some '\x7b' then g.expression
  else if ← g.objectAhead then g.expression <|> g.block .value
  else (g.block .value).overruled (isAhead assignMark) g.destructuringAssignment

/-- The arrow and the body of a function whose head has been read. -/
def arrowTail (g : Rules) (head : List Node) : Parse Node := do
  let arrow ← mark "=>"
  let body ← asRole .body g.arrowBody
  node Construct.arrowFunction (head ++ [arrow, body])

/-- An arrow function with parameters that `parameters` reads. Between `?` and `:` of a condition a colon after
the parameters starts a result type only if the colon of the condition is still to come; and an arrow
after a type in parentheses is preferably that of the function itself. -/
def arrowFunction (g : Rules) (parameters : Parse Node) : Parse Node := do
  let async ← opt1 do
    let k ← keyword "async"
    sameStatement .expression
    return k
  nextIn ['(', '<']
  let tps ← opt1 g.typeParameters
  let ps ← asRole .parameters parameters
  let head := async ++ tps ++ [ps]
  let condition : Bool := (← get).mode.inCondition
  let typed (functions : Bool) : Parse Node := do
    let t ← within (fun m => { m with breaks := false, functionTypes := functions }) g.resultType
    let f ← g.arrowTail (head ++ [t])
    if condition then nextIn [':']
    return f
  g.arrowTail head <|> typed false <|> typed true

/-- An arrow function with one parameter that is a bare name. -/
def shortArrow (g : Rules) : Parse Node := do
  let name ← asRole .parameter (nameBut Words.operand Construct.identifier)
  complete
  g.arrowTail [name]

/-- An arrow function with one parameter that is a bare name, after the word `async`. -/
def shortAsyncArrow (g : Rules) : Parse Node := do
  let async ← keyword "async"
  sameStatement .expression
  let name ← asRole .parameter (anyName Construct.identifier)
  g.arrowTail [async, name]

/-- An operand that starts with `async`: a function, or a variable of that name. -/
def asyncOperand (g : Rules) : Parse Node :=
  (do
    let _ ← ahead do
      let _ ← keyword "async"
      sameStatement .expression
      keyword "function"
    g.functionExpression)
  <|> g.shortAsyncArrow <|> g.shortArrow <|> g.arrowFunction g.tentativeParameters
  <|> anyName Construct.identifier

/-- The base classes and interfaces of a class. -/
def heritage (g : Rules) : Parse Node := do
  let extends' ← opt1 do
    let k ← keyword "extends"
    let items ← commaItems do
      let e ← g.expression
      match e with
      | .mk (.construct .instantiationExpression) _ _ [x, targs] =>
        return [x.withRole .value, targs]
      | e => return [e.withRole .value]
    node Construct.extendsClause (k :: items)
  let instantiated := extends'.any fun n => (n.children.getLast?.map (·.is .typeArguments)).getD false
  let implements ← opt1 do
    let k ← if instantiated then keyword "implements" else joint "implements"
    let items ← commaItems do return [← g.type]
    node Construct.implementsClause (k :: items)
  require !(extends'.isEmpty && implements.isEmpty)
  node Construct.classHeritage (extends' ++ implements)

/-- The end of a member of a class. -/
def memberEnd (rule : Cursor.BreakRule) : Parse (List Node) := do
  complete
  (do return [← mark ","]) <|> semicolon rule

/-- A member of a class that has a name, with what ends it. -/
def namedMember (g : Rules) : Parse (List Node) := do
  let decorators ← many1 g.decorator
  let ms ← modifiers .classBody
  let ws := ms.map (·.1)
  let name ← asRole .name (g.memberKey .classBody ws)
  let field := MemberStyle.classBody.breaksAfter ws
  if field then complete
  let sign ← opt1 do
    if field then sameStatement .plain
    asComplete (mark "?" <|> mark "!")
  let front := ms.map (·.2) ++ name :: sign
  (do
    if field then sameStatement .plain
    nextIn ['(', '<']
    require !(sign.any (·.isToken "!"))
    let front := front ++ (← g.callHead)
    (do
      require (ModifierRow.method.fits ws)
      let body ← asRole .body (g.block .part)
      let m ← node Construct.methodDefinition (front ++ [body])
      return decorators ++ m :: (← opt (semicolon .plain)))
    <|> (do
      require decorators.isEmpty
      if ws.contains "abstract" then
        require (ModifierRow.abstractMethod.fits ws)
        let m ← node Construct.abstractMethodSignature front
        return m :: (← memberEnd .plain)
      else
        require (ModifierRow.method.fits ws)
        let m ← node Construct.methodSignature front
        return m :: (← memberEnd .head)))
  <|> (do
    require field
    let type ← opt1 g.typeAscription
    let init ← opt g.initializer
    let m ← node Construct.publicFieldDefinition (decorators ++ front ++ type ++ init)
    return m :: (← memberEnd (if init.isEmpty then .plain else .expression)))

/-- An index signature as a member of a class. -/
def indexMember (g : Rules) : Parse (List Node) := do
  let s ← g.indexSignature
  return s :: (← memberEnd .plain)

/-- A block that runs once for the class. -/
def staticBlock (g : Rules) : Parse (List Node) := do
  let k ← keyword "static"
  sameStatement .plain
  let body ← asRole .body (g.block .part)
  return [← node Construct.classStaticBlock [k, body]]

/-- A member of a class with what ends it. -/
def classMember (g : Rules) : Parse (List Node) := do
  match ← nextName with
  | some "static" => g.staticBlock <|> g.namedMember
  | some "readonly" => g.indexMember <|> g.namedMember
  | some _ => g.namedMember
  | none =>
    match (← upcoming).head? with
    | some ';' => do return [← mark ";"]
    | some '-' | some '+' => g.indexMember
    | some '[' => g.indexMember <|> (do
      notAhead mappedAhead
      g.namedMember)
    | _ => g.namedMember

/-- The members of a class in braces. -/
def classBody (g : Rules) : Parse Node := do
  let left ← mark "\x7b"
  let members ← blocked (many g.classMember)
  let right ← mark "\x7d"
  node Construct.classBody (left :: members ++ [right])

/-- The name, type parameters, bases and body of a class. The given words are no names. -/
def classRest (g : Rules) (reserved : List String) : Parse (List Node) := do
  let name ← opt1 (asRole .name (nameBut reserved Construct.typeIdentifier))
  let tps ← opt1 g.typeParameters
  let bases ← opt1 (unbroken g.heritage)
  let body ← asRole .body g.classBody
  return name ++ tps ++ bases ++ [body]

/-- A class as an expression. -/
def classExpression (g : Rules) : Parse Node := do
  let decorators ← many1 g.decorator
  let k ← keyword "class"
  let rest ← g.classRest ["extends", "implements"]
  node Construct.classExpression (decorators ++ k :: rest)

/-- Names of modules joined by dots. The flag tells whether they could be complete without a body. -/
def modulePath (alone : Bool) : Parse Node := do
  let head ← anyName Construct.identifier
  if alone then complete
  let path ← dotted .memberExpression head
  return if path.is .memberExpression then path.withKind Construct.nestedIdentifier else path

/-- The name and the body of a module, of which the body may be missing. -/
def moduleRest (g : Rules) : Parse (List Node) := do
  let name ← asRole .name (Parse.string <|> modulePath false)
  if (← upcoming).head? == some '\x7b' then return [name, ← asRole .body (g.block .part)]
  else return [name]

/-- `import` as an operand: what is known about the module, or a module loaded on demand. -/
def importOperand (g : Rules) : Parse Node :=
  (do
    let k ← keyword "import"
    let dot ← mark "."
    let m ← keyword "meta"
    node Construct.metaProperty [k, dot, m])
  <|> (do
    let n ← importWord
    (do
      let dot ← mark "?."
      let chain ← node Construct.optionalChain [dot]
      node Construct.memberExpression [n, chain, ← memberName])
    <|> (do
      let targs ← opt1 g.typeArguments
      let args ← g.arguments
      node Construct.callExpression
        (n.withRole .function :: targs ++ [args.withRole .arguments])))

/-- An operand given by one of the words that are no names. -/
def primaryWord (g : Rules) (w : String) : Parse Node :=
  match w with
  | "function" => g.functionExpression
  | "async" => g.asyncOperand
  | "class" => g.classExpression
  | "this" => word "this" .thisKeyword
  | "super" => word "super" .superKeyword
  | "null" => word "null" .nullLiteral
  | "true" => word "true" .trueLiteral
  | "false" => word "false" .falseLiteral
  | "undefined" => word "undefined" .undefinedLiteral
  | "import" => g.importOperand
  | _ => g.shortArrow <|> nameBut Words.operand Construct.identifier

/-- An operand that is complete in itself. -/
def primary (g : Rules) : Parse Node := do
  let next ← upcoming
  match name? next with
  | some (t, _) => g.primaryWord (String.ofList t)
  | none =>
    match next.head? with
    | some '(' =>
      g.arrowFunction g.tentativeParameters
      <|> g.parenthesized.overruled (isAhead (mark "=>")) (g.arrowFunction g.formalParameters)
    | some '<' => g.arrowFunction g.formalParameters
    | some '[' => g.array
    | some '\x7b' => g.object
    | some '\x60' => g.templateString
    | some '\x22' => Parse.string
    | some '\x27' => Parse.string
    | some '/' => regex
    | some '@' => g.classExpression
    | _ => number

/-- Whether an expression is complete in itself, so that a template may follow it. -/
def isPrimary (n : Node) : Bool :=
  n.isOneOf [.subscriptExpression, .memberExpression, .parenthesizedExpression, .identifier,
    .undefinedLiteral, .thisKeyword, .superKeyword, .numberLiteral, .stringLiteral, .templateString,
    .regexLiteral, .trueLiteral, .falseLiteral, .nullLiteral, .objectLiteral, .arrayLiteral,
    .functionExpression, .arrowFunction, .generatorFunction, .classExpression, .metaProperty,
    .callExpression, .nonNullExpression]

/-- One step from an expression to a member of it or to an element at an index. -/
def memberStep (g : Rules) (n : Node) : Parse Node := do
  match ← upcoming with
  | '.' :: '.' :: _ => failure
  | '.' :: _ => do
    let dot ← mark "."
    node Construct.memberExpression [n, dot, ← memberName]
  | '?' :: '.' :: r => do
    require !((r.head?.map Char.isDigit).getD false)
    let dot ← mark "?."
    let chain ← node Construct.optionalChain [dot]
    (do
      let left ← mark "["
      let i ← bracketed g.sequence
      let right ← mark "]"
      node Construct.subscriptExpression [n, chain, left, i, right])
    <|> (do node Construct.memberExpression [n, chain, ← memberName])
  | '[' :: _ => do
    let left ← mark "["
    let i ← bracketed g.sequence
    let right ← mark "]"
    node Construct.subscriptExpression [n, left, i, right]
  | _ => failure

/-- A template after an operand, or an optional call of it. -/
def primaryStep (g : Rules) (n : Node) : Parse Node := do
  match ← upcoming with
  | '\x60' :: _ => do
    let t ← g.templateString
    node Construct.callExpression [n.withRole .function, t.withRole .arguments]
  | '?' :: '.' :: r => do
    require !((r.head?.map Char.isDigit).getD false)
    let dot ← mark "?."
    let targs ← opt1 g.typeArguments
    let args ← g.arguments
    node Construct.callExpression
      (n.withRole .function :: dot :: targs ++ [args.withRole .arguments])
  | _ => failure

/-- Succeeds where brackets that have been read turn out to be only the start of a place. -/
def placeGoesOn : Parse Unit := do
  match ← upcoming with
  | '.' :: '.' :: _ => failure
  | '?' :: '.' :: _ => pure ()
  | '!' :: r => require (r.head? != some '=')
  | c :: _ => require (['.', '[', '(', '\x60'].contains c)
  | [] => failure

/-- A place to assign to that is reached by members and indices, with no call on the way. -/
def simplePlace (g : Rules) : Parse Node := do
  let head ← word "this" .thisKeyword <|> word "super" .superKeyword
    <|> word "undefined" .undefinedLiteral <|> nameBut Words.operand Construct.identifier
    <|> (do
      let _ ← ahead g.destructuring
      g.object <|> g.array)
  complete
  extend (fun n => asComplete do
    sameStatement .expression
    g.memberStep n <|> (do
      let m ← markBefore "!" ['=']
      node Construct.nonNullExpression [n, m])) head

/-- What can be assigned to: a variable, or a place reached by members and indices. -/
def place (g : Rules) : Parse Node := do
  let simple : Bool := (← get).mode.simplePatterns
  let assignable (read : Parse Node) : Parse Node := do
    let p ← read
    require (p.isOneOf [.identifier, .undefinedLiteral, .memberExpression, .subscriptExpression,
      .nonNullExpression])
    return p
  if simple then assignable g.simplePlace
  else assignable (g.run (.operand .place)) <|> assignable g.simplePlace

/-- What stands on the left of an assignment: a place, or a pattern in brackets that `brackets`
reads. -/
def target (g : Rules) (brackets : Parse Node) : Parse Node :=
  (do
    let p ← brackets
    notAhead placeGoesOn
    return p)
  <|> g.place

/-- A pattern. -/
def patternRule (g : Rules) : Parse Node := do
  let p ← g.restPattern <|> g.target g.destructuring
  complete
  return p

end Rules

end SourceChange.Syntax
