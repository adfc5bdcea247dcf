import SourceChange.Syntax.Grammar.Members

/-!
Types: annotations, parameters and arguments of types, object types, function types and the
operators on types. Parameter lists of functions stand here too, since function types need them.
-/

namespace SourceChange.Syntax

namespace Rules

open Parse

/-- The name that a declaration gives to a type. -/
def typeName : Parse Node := anyName Construct.typeIdentifier

/-- Fails where a line break ends the statement that a type belongs to. -/
def sameType : Parse Unit := fun c =>
  sameStatement (if c.mode.inValue then .expression else .plain) c

/-- Notes that a type could be complete where a line break could end its statement or an operator
could follow it. -/
def completeType : Parse Unit := fun c =>
  if c.mode.breaks || c.mode.inValue then complete c else some ((), c)

/-- Type arguments in angle brackets. -/
def typeArguments (g : Rules) : Parse Node :=
  enclosed "<" ">" Construct.typeArguments do
    let items ← commaItems do return [← g.type]
    return items ++ (← opt1 (mark ","))

/-- A type after a colon. -/
def typeAscription (g : Rules) : Parse Node := do
  let colon ← mark ":"
  let t ← g.type
  node Construct.typeAscription [colon, t]

/-- What a type predicate speaks of. The given words are no names. -/
def predicateSubject (reserved : List String) : Parse Node := do
  match ← nextName with
  | some "this" => word "this" .thisKeyword
  | some "unique" => do
    let a ← keyword "unique"
    let b ← keyword "symbol"
    node Construct.identifier ([a, b].map (·.withKind (.token "unique symbol")))
  | some w =>
    if Words.predefinedTypes.contains w then
      let k ← keyword w
      node Construct.identifier [k]
    else nameBut reserved Construct.identifier
  | none => failure

/-- `x is T`. The given words are no names. -/
def typePredicate (g : Rules) (reserved : List String) : Parse Node := do
  let name ← predicateSubject reserved
  sameType
  let is ← keyword "is"
  let t ← g.type
  node Construct.typePredicate [name.withRole .name, is, t]

/-- `asserts x` or `asserts x is T`. -/
def asserts (g : Rules) : Parse Node := do
  let k ← keyword "asserts"
  let what ← g.typePredicate []
    <|> word "this" .thisKeyword
    <|> nameBut ("unique" :: Words.predefinedTypes) Construct.identifier
  node Construct.asserts [k, what]

/-- The result type of a function after a colon. -/
def resultType (g : Rules) : Parse Node := do
  let colon ← mark ":"
  if (← nextName) == some "asserts" then
    let a ← g.asserts
    node Construct.assertsAscription [colon, a]
  else
    (do
      let p ← g.typePredicate Words.type
      node Construct.typePredicateAscription [colon, p])
    <|> (do
      let t ← g.type
      node Construct.typeAscription [colon, t])

/-- The arguments of a call: expressions, each possibly spread. -/
def arguments (g : Rules) : Parse Node :=
  enclosed "(" ")" Construct.arguments <| commaHoles <|
    (do
      let dots ← mark "..."
      let e ← g.expression
      node Construct.spreadElement [dots, e])
    <|> g.expression

/-- What a decorator names: a path of members, possibly called. -/
def decoratorPath (g : Rules) : Parse Node := do
  let head ← anyName Construct.identifier
  let path ← dotted .memberExpression head
  (do
    let targs ← opt1 g.typeArguments
    let args ← asRole .arguments g.arguments
    node Construct.callExpression (path.withRole .function :: targs ++ [args])) <|> pure path

/-- A decorator, such as `@name` or `@make(x)`. -/
def decorator (g : Rules) : Parse Node := do
  let at' ← mark "@"
  let what ←
    enclosed "(" ")" Construct.parenthesizedExpression (do return [← g.decoratorPath])
    <|> g.decoratorPath
  node Construct.decorator [at', what]

/-- A modifier of a parameter: what it modifies follows it. -/
def parameterModifier (ws : List String) : Parse Node := do
  let k ← oneKeyword ws
  let next ← upcoming
  require <| (name? next).isSome || (next.head?.map ['[', '\x7b'].contains).getD false ||
    (afterPrefix? ['.', '.', '.'] next).isSome
  modifierNode (k.kind.name) k

/-- The mark of an optional parameter. Anything but the end of the parameter or its type after it would
make it the mark of a condition. -/
def optionalMark : Parse Node := do
  match ← upcoming with
  | '?' :: r =>
    require (((r.dropWhile isBlank).head?.map [':', ')', ','].contains).getD false)
    mark "?"
  | _ => failure

/-- One parameter of a function. A parameter for all further arguments has a default value only after
a type. -/
def parameter (g : Rules) : Parse Node := do
  let decorators ← many1 g.decorator
  let access ← opt1 (parameterModifier Words.access)
  let override ← opt1 (parameterModifier ["override"])
  let constant ← opt1 (parameterModifier ["readonly"])
  let pat ← asRole .pattern (g.pattern <|> word "this" .thisKeyword)
  let mark? ← opt1 optionalMark
  let type ← opt1 g.typeAscription
  let init ← if pat.is .restPattern && type.isEmpty then pure [] else opt g.initializer
  let kind := if mark?.isEmpty then Construct.requiredParameter else Construct.optionalParameter
  node kind (decorators ++ access ++ override ++ constant ++ [pat] ++ mark? ++ type ++ init)

/-- The parameters of a function. -/
def formalParameters (g : Rules) : Parse Node :=
  enclosed "(" ")" Construct.formalParameters (commaList g.parameter)

/-- The parameters of a function where something else in parentheses could stand as well. -/
def tentativeParameters (g : Rules) : Parse Node :=
  within (fun m => { m with simplePatterns := true }) g.formalParameters

/-- Parameters of a type in angle brackets. -/
def typeParameters (g : Rules) : Parse Node :=
  enclosed "<" ">" Construct.typeParameters do
    let items ← commaItems do
      let const ← opt1 (keyword "const")
      let name ← asRole .name typeName
      let bound ← opt1 do
        let k ← keyword "extends" <|> mark ":"
        let t ← g.type
        node Construct.constraint [k, t]
      let default ← opt1 do
        let eq ← mark "="
        let t ← g.type
        node Construct.defaultType [eq, t]
      return [← node Construct.typeParameter (const ++ [name] ++ bound ++ default)]
    return items ++ (← opt1 (mark ","))

/-- The head of a function: type parameters, parameters and result type. -/
def callHead (g : Rules) : Parse (List Node) := do
  let tps ← opt1 g.typeParameters
  let ps ← asRole .parameters g.formalParameters
  completeType
  let result ← opt1 g.resultType
  return tps ++ [ps] ++ result

/-- `[key: T]: U`, or the clause of a mapped type. -/
def indexSignature (g : Rules) : Parse Node := do
  let sign ← opt do
    let s ← opt1 (mark "-" <|> mark "+")
    let k ← keyword "readonly"
    if s.isEmpty then sameType
    return s ++ [k]
  let left ← mark "["
  let inner ← bracketed <|
    (do
      let name ← asRole .name (nameBut Words.operand Construct.identifier)
      let colon ← mark ":"
      let t ← g.type
      return [name, colon, t])
    <|> (do
      let name ← asRole .name (nameBut (Words.operand ++ Words.soft) Construct.typeIdentifier)
      let k ← joint "in"
      let t ← g.type
      let as' ← opt do
        let k ← joint "as"
        return [k, ← asRole .newName g.type]
      return [← node Construct.mappedTypeClause ([name, k, t] ++ as')])
  let right ← mark "]"
  let ascribed (m : String) (kind : Construct) : Parse Node := do
    let m ← mark m
    let t ← g.type
    node kind [m, t]
  let type ← ascribed "-?:" .omittingTypeAscription <|> ascribed "+?:" .addingTypeAscription
    <|> ascribed "?:" .optingTypeAscription <|> g.typeAscription
  node Construct.indexSignature (sign ++ [left] ++ inner ++ [right, type])

/-- The start of a mapped type, which cannot be taken for the computed name of a member. -/
def mappedAhead : Parse Node := do
  let _ ← mark "["
  let _ ← nameBut (Words.operand ++ Words.soft) Construct.identifier
  joint "in"

/-- The signature of a constructor. -/
def constructSignature (g : Rules) : Parse Node := do
  let abstract ← opt1 (keyword "abstract")
  let new' ← keyword "new"
  if abstract.isEmpty then sameType
  let tps ← opt1 g.typeParameters
  let ps ← asRole .parameters g.formalParameters
  completeType
  let result ← opt1 g.typeAscription
  node Construct.constructSignature (abstract ++ [new'] ++ tps ++ [ps] ++ result)

/-- A property or a method of an object type. -/
def propertySignature (g : Rules) : Parse Node := do
  let ms ← modifiers .objectType
  let ws := ms.map (·.1)
  let name ← asRole .name (g.memberKey .objectType ws)
  completeType
  let optional ← opt1 (asComplete (mark "?"))
  let front := ms.map (·.2) ++ name :: optional
  (do
    if MemberStyle.objectType.breaksAfter ws then sameType
    nextIn ['(', '<']
    node Construct.methodSignature (front ++ (← g.callHead)))
  <|> (do
    require (ModifierRow.property.fits ws)
    node Construct.propertySignature (front ++ (← opt1 g.typeAscription)))

/-- A member of an object type. -/
def typeMember (g : Rules) : Parse Node := do
  match ← nextName with
  | some "abstract" => g.constructSignature
  | some "new" => g.constructSignature <|> g.propertySignature
  | some "export" =>
    (do
      let _ ← ahead do
        let _ ← keyword "export"
        sameType
        notAhead (nextIn [':', '?', '(', '<', ',', ';', '|', '\x7d'])
      g.run .exportation) <|> g.propertySignature
  | some "readonly" => g.indexSignature <|> g.propertySignature
  | some _ => g.propertySignature
  | none =>
    match (← upcoming).head? with
    | some '@' => g.run .exportation
    | some '(' | some '<' => do node Construct.callSignature (← g.callHead)
    | some '-' | some '+' => g.indexSignature
    | some '[' => g.indexSignature <|> (do
      notAhead mappedAhead
      g.propertySignature)
    | _ => g.propertySignature

/-- The members of an object type or an interface in braces. -/
def objectType (g : Rules) (kind : Construct) : Parse Node := do
  let left ← mark "\x7b|" <|> mark "\x7b"
  let inner ← blocked do
    let lead ← opt1 (mark "," <|> mark ";")
    let members ← many do
      let m ← g.typeMember
      let sep ← (do return [← mark ","]) <|> semicolon .plain
      return m :: sep
    let last ← opt1 g.typeMember
    let inner := members ++ last
    require (lead.isEmpty || !inner.isEmpty)
    return lead ++ inner
  let right ← mark "\x7d" <|> mark "|\x7d"
  node kind (left :: inner ++ [right])

/-- The result of a function type. -/
def functionResult (g : Rules) : Parse Node := do
  if (← nextName) == some "asserts" then g.asserts
  else g.typePredicate Words.type <|> g.type

/-- A function type: parameters, an arrow and a result. -/
def functionType (g : Rules) : Parse Node := do
  let tps ← opt1 g.typeParameters
  let ps ← asRole .parameters g.tentativeParameters
  let arrow ← mark "=>"
  let result ← g.functionResult
  node Construct.functionType (tps ++ [ps, arrow, result])

/-- The word `import` as the head of a path or a call. -/
def importWord : Parse Node := do
  let k ← keyword "import"
  node Construct.importKeyword [k]

/-- One step along the path of a value in a type: a member, an index or a call. -/
def queryStep (g : Rules) (n : Node) : Parse Node := do
  match ← upcoming with
  | '?' :: '.' :: _ => do
    require !(n.is .importKeyword)
    let chain ← mark "?."
    (do
      let left ← mark "["
      let i ← Parse.string <|> number <|> (do
        let k ← oneKeyword Words.predefinedTypes
        node Construct.predefinedType [k])
      let right ← mark "]"
      node Construct.subscriptExpression [n, chain, left, i, right])
    <|> (do node Construct.memberExpression [n, chain, ← memberName])
  | '.' :: _ => do
    require !(n.is .importKeyword)
    let dot ← mark "."
    node Construct.memberExpression [n, dot, ← memberName]
  | '(' :: _ => do
    require !(n.isOneOf [.thisKeyword, .callExpression])
    if !n.is .importKeyword then sameType
    let args ← g.arguments
    node Construct.callExpression [n.withRole .function, args.withRole .arguments]
  | _ => failure

/-- The type of a value: `typeof x.y`. -/
def typeQuery (g : Rules) : Parse Node := do
  let k ← keyword "typeof"
  let head ← match ← nextName with
    | some "import" => importWord
    | some "this" => word "this" .thisKeyword
    | _ => anyName Construct.identifier
  if !head.is .importKeyword then completeType
  let path ← extend (fun n => do
    let m ← g.queryStep n
    completeType
    return m) head
  let args ← opt1 do
    require !(path.isOneOf [.thisKeyword, .callExpression])
    g.typeArguments
  require !(path.is .importKeyword && args.isEmpty)
  match args with
  | [] => node Construct.typeQuery [k, path]
  | args =>
    let inst ← node Construct.instantiationExpression (path.withRole .function :: args)
    node Construct.typeQuery [k, inst]

/-- A type of another module: `import('source').name`. -/
def importType (g : Rules) : Parse Node := do
  let head ← importWord
  let path ← extend (fun n => do
    let m ←
      (do
        let dot ← mark "."
        node Construct.memberExpression [n, dot, ← memberName])
      <|> (do
        require !(n.is .callExpression)
        if !n.is .importKeyword then sameType
        let args ← g.arguments
        node Construct.callExpression [n.withRole .function, args.withRole .arguments])
    completeType
    return m) head
  require !(path.is .importKeyword)
  return path

/-- Whether an opening angle bracket comes next. Where the type is part of an expression, a longer
operator may start with the same mark. -/
def angleFollows : Parse Bool := fun c =>
  let longer (r : List Char) : Bool := (r.head?.map ['<', '='].contains).getD false
  match c.skip.rest with
  | '<' :: r => some (!(c.mode.inValue && longer r), c)
  | _ => some (false, c)

/-- A type given by a name, possibly qualified, possibly with arguments. The given words are no
names. -/
def namedType (g : Rules) (reserved : List String) : Parse Node := do
  let head ← nameBut reserved Construct.identifier
  completeType
  let path ← dotted .memberExpression head
  let name := match path with
    | .mk (.construct .memberExpression) r s [m, dot, p] =>
      let m := if m.is .memberExpression then m.withKind Construct.nestedIdentifier else m
      Node.mk Construct.nestedTypeIdentifier r s
        [m, dot, (p.withKind Construct.typeIdentifier).withRole .name]
    | n => n.withKind Construct.typeIdentifier
  if ← angleFollows then
    let args ← g.typeArguments
    node Construct.genericType [name.withRole .name, args]
  else return name

/-- A literal used as a type. -/
def literalType : Parse Node := do
  let value ← number
    <|> (do
      let sign ← mark "-" <|> mark "+"
      let n ← number
      node Construct.unaryExpression [sign, n])
    <|> Parse.string
    <|> word "true" .trueLiteral <|> word "false" .falseLiteral
    <|> word "null" .nullLiteral <|> word "undefined" .undefinedLiteral
  node Construct.literalType [value]

/-- Whether a type may have brackets after it. -/
def isPrimaryType (n : Node) : Bool :=
  !n.isOneOf [.functionType, .readonlyType, .constructorType, .inferType, .memberExpression,
    .callExpression]

/-- A template literal used as a type. -/
def templateLiteralType (g : Rules) : Parse Node := do
  let left ← mark "\x60"
  let inner ← many1 <|
    (do
      let a ← markHere "$\x7b"
      let t ← bracketed g.type
      require (isPrimaryType t || t.is .inferType)
      let b ← mark "\x7d"
      node Construct.templateType [a, t, b])
    <|> templateFragment
  let right ← markHere "\x60"
  node Construct.templateLiteralType (left :: inner ++ [right])

/-- A member of a tuple type. -/
def tupleMember (g : Rules) : Parse Node :=
  (do
    let name ←
      (do
        let dots ← mark "..."
        let w ← nextName
        let p ← g.pattern
        require !(p.is .restPattern)
        require !(p.is .identifier && Words.onlyType.contains (w.getD ""))
        node Construct.restPattern [dots, p])
      <|> nameBut Words.type Construct.identifier
    let optional ← if name.is .restPattern then pure [] else opt1 (mark "?")
    let type ← g.typeAscription
    let kind := if optional.isEmpty then Construct.requiredParameter else Construct.optionalParameter
    node kind (name.withRole .name :: optional ++ [type]))
  <|> (do
    let dots ← mark "..."
    let t ← g.type
    node Construct.restType [dots, t])
  <|> (do
    let t ← g.type
    (do
      let m ← mark "?"
      node Construct.optionalType [t, m]) <|> pure t)

/-- A type that starts with one of the words that are no names. -/
def wordType (g : Rules) (w : String) : Parse Node :=
  match w with
  | "unique" => do
    let a ← keyword "unique"
    let b ← keyword "symbol"
    node Construct.predefinedType ([a, b].map (·.withKind (.token "unique symbol")))
  | "this" => word "this" .thisType
  | "typeof" => g.typeQuery
  | "import" => g.importType
  | "const" => keyword "const"
  | "readonly" => do
    let k ← keyword "readonly"
    let t ← g.type
    node Construct.readonlyType [k, t]
  | "infer" => do
    let k ← keyword "infer"
    let name ← typeName
    let bound ← opt do
      sameType
      let e ← keyword "extends"
      return [e, ← g.type]
    node Construct.inferType (k :: name :: bound)
  | "keyof" => do
    let k ← keyword "keyof"
    let t ← g.run (.type .tight)
    require (isPrimaryType t)
    node Construct.indexTypeQuery [k, t]
  | "new" | "abstract" => do
    let abstract ← opt1 (keyword "abstract")
    let new' ← keyword "new"
    let tps ← opt1 g.typeParameters
    let ps ← asRole .parameters g.formalParameters
    let arrow ← mark "=>"
    let t ← g.run (.type .tight)
    node Construct.constructorType (abstract ++ [new'] ++ tps ++ [ps, arrow, t])
  | w =>
    if Words.predefinedTypes.contains w then do
      let k ← keyword w
      node Construct.predefinedType [k]
    else literalType

/-- Whether a pattern in braces could be an object type up to its closing brace, which then ends a
member of that type. -/
def readsAsObjectType : Node → Bool
  | .mk (.construct .objectPattern) _ _ [_, .mk (.construct .shorthandPropertyIdentifierPattern) _ _ _, _] =>
    true
  | .mk (.construct .objectPattern) _ _ [_, .mk (.construct .pairPattern) _ _ [_, _, value], _] =>
    value.is .identifier || readsAsObjectType value
  | _ => false

/-- Succeeds where an opening parenthesis cannot start the parameters of a function type, because what
follows it is a type. -/
def typeInParentheses : Parse Unit := do
  let _ ← mark "("
  let _ ← many1 (mark "[")
  (do let _ ← oneKeyword Words.onlyType)
    <|> (do
      let _ ← opt1 (keyword "readonly")
      let _ ← oneKeyword ("undefined" :: Words.predefinedTypes)
      nextIn [')', ']'])

/-- Succeeds where an opening parenthesis cannot start a type, because what follows it is an
operand. -/
def operandInParentheses : Parse Unit := do
  let _ ← mark "("
  (do let _ ← oneKeyword Words.onlyOperand)
    <|> (do
      let _ ← keyword "typeof"
      let _ ← oneKeyword (Words.soft ++ Words.operand.filter fun w => w != "this" && w != "import"))
    <|> (do
      let _ ← nameBut Words.type Construct.identifier
      let _ ← mark "||" <|> mark "&&")

/-- A function type, where one may stand, or a type in parentheses. -/
def parenthesizedType (g : Rules) : Parse Node := do
  let functions : Bool := (← get).mode.functionTypes
  (do
    require functions
    notAhead typeInParentheses
    let t ← g.functionType
    let first := (t.children.head?.bind fun ps => ps.children[1]?).bind (·.child? .pattern)
    require !(first.any readsAsObjectType)
    return t)
  <|> (do
    notAhead operandInParentheses
    enclosed "(" ")" Construct.parenthesizedType do
      let imported := (← nextName) == some "import"
      let t ← g.type
      require (!imported || t.is .callExpression)
      return [t])

/-- The operand of a type operator. -/
def typeHead (g : Rules) : Parse Node := do
  match ← nextName with
  | some w => if Words.type.contains w then g.wordType w else g.namedType []
  | none =>
    match (← upcoming).head? with
    | some '\x7b' => g.objectType .objectType
    | some '[' => enclosed "[" "]" Construct.tupleType (looseList g.tupleMember)
    | some '(' => g.parenthesizedType
    | some '<' => g.functionType
    | some '\x60' => g.templateLiteralType
    | some '*' => do
      let s ← mark "*"
      node Construct.existentialType [s]
    | some '?' => do
      let q ← mark "?"
      let t ← g.type
      require (isPrimaryType t)
      node Construct.flowMaybeType [q, t]
    | some '|' => do
      let m ← mark "|"
      let t ← g.run (.type .union)
      node Construct.unionType [m, t]
    | some '&' => do
      let m ← mark "&"
      let t ← g.run (.type .tight)
      node Construct.intersectionType [m, t]
    | _ => literalType

/-- A mark that joins two types. Where the types are part of an expression, the mark must not start a
longer operator. -/
def typeJoint (t : String) (longer : List Char) : Parse Node := do
  let inValue : Bool := (← get).mode.inValue
  if inValue then markBefore t longer else mark t

/-- A type with what may follow it as an operand of `pending`. -/
def typeStep (g : Rules) (pending : TypePending) (n : Node) : Parse Node := do
  sameType
  match ← upcoming with
  | '[' :: _ => do
    require (isPrimaryType n)
    let left ← mark "["
    let inner ← bracketed (opt1 g.type)
    let right ← mark "]"
    let kind := if inner.isEmpty then Construct.arrayType else Construct.lookupType
    node kind (n :: left :: inner ++ [right])
  | '&' :: _ => do
    require (pending != .tight)
    let m ← typeJoint "&" ['&', '=']
    let t ← g.run (.type .tight)
    node Construct.intersectionType [n, m, t]
  | '|' :: '\x7d' :: _ => failure
  | '|' :: _ => do
    require (pending == .free)
    let m ← typeJoint "|" ['|', '=']
    let t ← g.run (.type .union)
    node Construct.unionType [n, m, t]
  | _ => do
    require (pending == .free)
    let e ← keyword "extends"
    let right ← unbroken g.type
    let q ← mark "?"
    let yes ← unbroken g.type
    let colon ← mark ":"
    let no ← g.type
    node Construct.conditionalType [n, e, right, q, yes, colon, no]

/-- A type, as an operand of `pending`. -/
def typeRule (g : Rules) (pending : TypePending) : Parse Node := do
  let head ← g.typeHead
  completeType
  extend (fun n => do
    let m ← g.typeStep pending n
    completeType
    return m) head

end Rules

end SourceChange.Syntax
