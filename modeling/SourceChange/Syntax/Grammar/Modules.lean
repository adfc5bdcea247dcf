import SourceChange.Syntax.Grammar.Declarations

/-!
Imports and exports.
-/

namespace SourceChange.Syntax

namespace Rules

open Parse

/-- `from 'source'`. -/
def fromClause : Parse (List Node) := do
  let k ← keyword "from"
  let s ← asRole .source Parse.string
  return [k, s]

/-- The name of something a module exports. -/
def exportName : Parse Node := Parse.string <|> anyName Construct.identifier

/-- `as` and another name. -/
def otherName (name : Parse Node) : Parse (List Node) := do
  let k ← joint "as"
  return [k, ← asRole .newName name]

/-- One item between the braces of an import. The word `type` marks a type, unless it is the name
itself; a name that is no variable name must be given another. -/
def importSpecifier : Parse Node :=
  let plain : Parse (List Node) :=
    (do
      let isType := (← nextName) == some "type"
      let name ← asRole .name (Parse.string <|> nameBut ["typeof"] Construct.identifier)
      require (!isType || (← nextName) == some "as")
      return name :: (← otherName (anyName Construct.identifier)))
    <|> (do return [← asRole .name (nameBut ["default", "typeof"] Construct.identifier)])
  let ends : Parse Unit := nextIn [',', '\x7d']
  (do
    let parts ← plain
    ends
    node Construct.importSpecifier parts)
  <|> (do
    let k ← oneKeyword ["type", "typeof"]
    require (k.isToken "typeof" || (← nextName) != some "as")
    let parts ← plain
    ends
    node Construct.importSpecifier (k :: parts))

/-- The names an import brings in by name. -/
def namedImports : Parse Node :=
  enclosed "\x7b" "\x7d" Construct.namedImports (looseList importSpecifier)

/-- `* as name`. -/
def namespaceImport : Parse Node := do
  let star ← mark "*"
  let k ← joint "as"
  let name ← anyName Construct.identifier
  node Construct.namespaceImport [star, k, name]

/-- What an import binds. The given words are no names. -/
def importClause (reserved : List String) : Parse Node := do
  let parts ←
    (do return [← namespaceImport <|> namedImports])
    <|> (do
      let name ← nameBut reserved Construct.identifier
      let more ← opt do
        let comma ← mark ","
        return [comma, ← namespaceImport <|> namedImports]
      return name :: more)
  node Construct.importClause parts

/-- `name = require('source')`. The given words are no names. -/
def importRequire (reserved : List String) : Parse Node := do
  let name ← nameBut reserved Construct.identifier
  let eq ← assignMark
  let k ← keyword "require"
  let left ← mark "("
  let s ← asRole .source Parse.string
  let right ← mark ")"
  node Construct.importRequireClause [name, eq, k, left, s, right]

/-- An import. -/
def importStatement (g : Rules) : Parse Node := do
  let k ← keyword "import"
  let body (names requires : List String) : Parse (List Node) :=
    (do
      let c ← importClause names
      return c :: (← fromClause))
    <|> (do return [← importRequire requires])
    <|> (do return [← asRole .source Parse.string])
  let parts ← body ["typeof"] ["type", "typeof"] <|> (do
    let t ← oneKeyword ["type", "typeof"]
    let words := if t.isToken "type" then ["from"] else []
    return t :: (← body words words))
  complete
  (do
    let stop ← semicolon .plain
    node Construct.importStatement (k :: parts ++ stop))
  <|> (do
    let w ← keyword "with"
    let o ← g.object
    let attributes ← node Construct.importAttribute [w, o]
    let stop ← semicolon .plain
    node Construct.importStatement (k :: parts ++ attributes :: stop))

/-- One item between the braces of an export. The word `type` always marks a type. -/
def exportSpecifier : Parse Node := do
  let k ← opt1 (oneKeyword ["type", "typeof"])
  let name ← asRole .name exportName
  let other ← opt (otherName exportName)
  node Construct.exportSpecifier (k ++ name :: other)

/-- The names an export lists. -/
def exportClause : Parse Node :=
  enclosed "\x7b" "\x7d" Construct.exportClause (looseList exportSpecifier)

/-- The names an export lists, with the module they come from if it is given. -/
def exportList : Parse (List Node) := do
  let c ← exportClause
  complete
  (do
    let stop ← semicolon .plain
    return c :: stop)
  <|> (do
    let source ← fromClause
    let stop ← semicolon .plain
    return c :: source ++ stop)

/-- Whether a declaration, rather than an expression that starts with the same word, comes next. -/
def declarationAhead : Parse Bool := do
  let follows (w : String) (next : Parse Unit) : Parse Bool :=
    isAhead do
      let _ ← keyword w
      if !Words.operand.contains w then sameStatement .expression
      next
  let name : Parse Unit := do
    match ← nextName with
    | some w => require !Words.joints.contains w
    | none => failure
  match ← nextName with
  | some "async" => follows "async" do
    let _ ← keyword "function"
    let _ ← opt1 (mark "*")
    let _ ← anyName Construct.identifier
  | some "function" => follows "function" do
    let _ ← opt1 (mark "*")
    let _ ← anyName Construct.identifier
  | some "class" => follows "class" do
    let _ ← nameBut ["extends", "implements"] Construct.identifier
  | some "let" => follows "let" (name <|> nextIn ['[', '\x7b'])
  | some "type" => follows "type" name
  | some "declare" => follows "declare" (name <|> nextIn ['@'])
  | some "namespace" | some "module" => do
    let w := (← nextName).getD ""
    follows w (name <|> nextIn ['\x22', '\x27'])
  | some "import" => follows "import" do
    let _ ← nameBut ["type", "typeof"] Construct.identifier
    let _ ← assignMark
  | some w => return ["abstract", "const", "var", "interface", "enum"].contains w
  | none => isAhead do
    let _ ← mark "@"

/-- Whether what comes next continues an expression and cannot start a statement. -/
def onlyContinues : Parse Bool := fun c =>
  let next := c.skip.rest
  let marks := ['.', ',', '=', '?', '*', '%', '&', '|', '^', '>']
  let continues :=
    match next with
    | '.' :: d :: _ => !d.isDigit
    | '=' :: '>' :: _ => false
    | '!' :: '=' :: _ => true
    | '<' :: '=' :: _ => true
    | '<' :: '<' :: _ => true
    | '+' :: '=' :: _ => true
    | '-' :: '=' :: _ => true
    | c :: _ => marks.contains c || (name? next).any fun (t, _) =>
      Words.joints.contains (String.ofList t)
    | [] => false
  some (continues, c)

/-- What follows `export default`: a declaration, or a value. A namespace that a line break ends is a
value. -/
def exportDefault (g : Rules) : Parse (List Node) := do
  let k ← keyword "default"
  let value : Parse (List Node) := do
    let e ← asRole .value g.expression
    let stop ← semicolon .expression
    return k :: e :: stop
  let declared : Parse (List Node) := do return [k, ← asRole .declaration (g.declaration .value)]
  let enclosing : Parse (List Node) := do
    let e ← g.namespaceExpression
    let ends : Bool := (← get).mustStop .expression
    if ends then
      let stop ← semicolon .expression
      return k :: e.withRole .value :: stop
    else return [k, e.withRole .declaration]
  match ← nextName with
  | some w =>
    if ["abstract", "const", "enum", "interface", "var"].contains w then declared
    else if ← declarationAhead then
      if ["async", "class", "function"].contains w then declared.overruled onlyContinues value
      else if w == "namespace" then enclosing.overruled onlyContinues value
      else declared
    else value
  | none => declared.overruled onlyContinues value <|> value

/-- What follows `export`. -/
def exportBody (g : Rules) : Parse (List Node) := do
  match ← nextName with
  | some "default" => g.exportDefault
  | some "type" =>
    (do
      let t ← keyword "type"
      return t :: (← exportList))
    <|> (do return [← asRole .declaration (g.declaration .part)])
  | some "import" =>
    (do
      let k ← keyword "import"
      return [k, ← importAlias []])
    <|> (do return [← asRole .declaration (importAlias [])])
  | some "as" => do
    let a ← keyword "as"
    let n ← keyword "namespace"
    let name ← anyName Construct.identifier
    let stop ← semicolon .plain
    return [a, n, name] ++ stop
  | some _ => do return [← asRole .declaration (g.declaration .part)]
  | none =>
    match (← upcoming).head? with
    | some '*' => do
      let star ←
        (do
          let s ← mark "*"
          let k ← keyword "as"
          let name ← exportName
          node Construct.namespaceExport [s, k, name]) <|> mark "*"
      let source ← fromClause
      let stop ← semicolon .plain
      return star :: source ++ stop
    | some '\x7b' => exportList
    | some '=' => do
      let eq ← assignMark
      let e ← g.expression
      let stop ← semicolon .expression
      return eq :: e :: stop
    | _ => do return [← asRole .declaration (g.declaration .part)]

/-- An export. After decorators it is that of a declaration or a default. -/
def exportRule (g : Rules) : Parse Node := do
  let decorators ← many1 g.decorator
  let k ← keyword "export"
  if decorators.isEmpty then sameStatement .expression
  let body ← g.exportBody
  require (decorators.isEmpty || body.any fun n => n.role == some .declaration
    || n.isToken "default")
  node Construct.exportStatement (decorators ++ k :: body)

end Rules

end SourceChange.Syntax
