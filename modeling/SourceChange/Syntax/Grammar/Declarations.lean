import SourceChange.Syntax.Grammar.Operators

/-!
Declarations: variables, functions, classes, interfaces, enumerations, names for types and modules.
-/

namespace SourceChange.Syntax

namespace Rules

open Parse

/-- The line ends after the closing brace of a block. -/
def blockEnd (place : BlockPlace) (body : List Node) : Cursor.BreakRule :=
  if place == .value || (place == .statement && body.isEmpty) then .expression else .plain

/-- A block of statements. Comments that stand between its brace and the end of the line belong to
the block. -/
def blockRule (g : Rules) (place : BlockPlace) : Parse Node := do
  let left ← mark "\x7b"
  let body ← blocked <| many do
    notAhead (mark "\x7d")
    return [← g.statement]
  let right ← mark "\x7d"
  trailing (blockEnd place body)
  node Construct.statementBlock (left :: body ++ [right])

/-- One variable of a declaration. The given words are no names. -/
def declarator (g : Rules) (reserved : List String) : Parse Node := do
  let name ← asRole .name (g.bindingTarget reserved)
  complete
  (do
    require (name.is .identifier)
    sameStatement .plain
    let m ← mark "!"
    let t ← g.typeAscription
    node Construct.variableDeclarator [name, m, t])
  <|> (do
    let type ← opt1 g.typeAscription
    let init ← opt g.initializer
    node Construct.variableDeclarator (name :: type ++ init))

/-- The words that cannot be the first name of a declaration with the given keyword. -/
def reservedAfter (k : Node) : List String :=
  if k.isToken "let" then Words.joints else if k.isToken "const" then ["enum"] else []

/-- A declaration of variables. -/
def variableDeclaration (g : Rules) : Parse Node := do
  let k ← oneKeyword ["var", "let", "const"]
  let first ← g.declarator (reservedAfter k)
  let more ← many do
    sameStatement .plain
    let comma ← mark ","
    return [comma, ← g.declarator []]
  let items := first :: more
  let initialised := (items.getLast?.map fun d => d.hasToken "=").getD false
  let stop ← semicolon (if initialised then .expression else .plain)
  let kind := if k.isToken "var" then Construct.variableDeclaration else Construct.lexicalDeclaration
  node kind (k :: items ++ stop)

/-- A function declaration; without a body it is the signature of one. -/
def functionDeclaration (g : Rules) (place : BlockPlace) : Parse Node := do
  let async ← opt1 (keyword "async")
  let k ← keyword "function"
  let star ← opt1 (mark "*")
  let name ← asRole .name (anyName Construct.identifier)
  let head ← if star.isEmpty then g.callHead else unbroken g.callHead
  let front := async ++ [k] ++ star ++ [name] ++ head
  if (← upcoming).head? == some '\x7b' then
    let body ← asRole .body (g.block place)
    trailing (blockEnd place [])
    let kind :=
      if star.isEmpty then Construct.functionDeclaration
      else Construct.generatorFunctionDeclaration
    node kind (front ++ [body])
  else
    require star.isEmpty
    let stop ← semicolon .head
    node Construct.functionSignature (front ++ stop)

/-- A class declaration; it has a name. Where it could be an expression, which needs no name, the words
that introduce its bases are no names. -/
def classDeclaration (g : Rules) (place : BlockPlace) : Parse Node := do
  let decorators ← many1 g.decorator
  let abstract ← opt1 (keyword "abstract")
  let k ← keyword "class"
  let rest ← g.classRest (if place == .value then ["extends", "implements"] else [])
  require ((rest.head?.map (·.is .typeIdentifier)).getD false)
  if abstract.isEmpty then
    trailing (blockEnd place [])
    node Construct.classDeclaration (decorators ++ k :: rest)
  else node Construct.abstractClassDeclaration (decorators ++ abstract ++ k :: rest)

/-- A module or a namespace. -/
def moduleDeclaration (g : Rules) : Parse Node := do
  let k ← oneKeyword ["module", "namespace"]
  let rest ← g.moduleRest
  let kind := if k.isToken "module" then Construct.moduleDeclaration else Construct.internalModule
  node kind (k :: rest)

/-- An interface. -/
def interfaceDeclaration (g : Rules) : Parse Node := do
  let k ← keyword "interface"
  let name ← asRole .name typeName
  let tps ← opt1 g.typeParameters
  let bases ← opt1 do
    let e ← keyword "extends"
    let items ← commaItems do return [← g.namedType []]
    node Construct.extendsTypeClause (e :: items)
  let body ← asRole .body (g.objectType .interfaceBody)
  node Construct.interfaceDeclaration (k :: name :: tps ++ bases ++ [body])

/-- An enumeration. -/
def enumDeclaration (g : Rules) : Parse Node := do
  let const ← opt1 (keyword "const")
  let k ← keyword "enum"
  let name ← asRole .name (anyName Construct.identifier)
  let body ← enclosed "\x7b" "\x7d" Construct.enumBody <| commaList do
    let name ← asRole .name g.propertyName
    (do
      let init ← g.initializer
      node Construct.enumAssignment (name :: init)) <|> pure name
  node Construct.enumDeclaration (const ++ [k, name, body.withRole .body])

/-- A name for a type. -/
def typeAlias (g : Rules) : Parse Node := do
  let k ← keyword "type"
  let name ← asRole .name typeName
  let tps ← opt1 g.typeParameters
  let eq ← mark "="
  let t ← asRole .value g.type
  let stop ← semicolon .plain
  node Construct.typeAliasDeclaration (k :: name :: tps ++ [eq, t] ++ stop)

/-- A name for a module: `import a = b.c`. The given words are no names. -/
def importAlias (reserved : List String) : Parse Node := do
  let k ← keyword "import"
  let name ← nameBut reserved Construct.identifier
  let eq ← assignMark
  require ((← nextName) != some "require")
  let path ← modulePath true
  let stop ← semicolon .plain
  node Construct.importAlias ([k, name, eq, path] ++ stop)

/-- Something that is declared elsewhere; `inner` reads the declaration. -/
def ambientDeclaration (g : Rules) (inner : Parse Node) : Parse Node := do
  let k ← keyword "declare"
  (do
    let w ← keyword "global"
    let body ← g.block .part
    node Construct.ambientDeclaration [k, w, body])
  <|> (do
    let w ← keyword "module"
    let dot ← mark "."
    let p ← anyName Construct.propertyIdentifier
    let colon ← mark ":"
    let t ← g.type
    let stop ← semicolon .plain
    node Construct.ambientDeclaration ([k, w, dot, p, colon, t] ++ stop))
  <|> (do
    let d ← inner
    node Construct.ambientDeclaration [k, d])

/-- A declaration, where at most the given number of `declare` may stand in front. -/
def declarationFrom (g : Rules) (place : BlockPlace) : Nat → Parse Node
  | 0 => failure
  | n + 1 => do
    match ← nextName with
    | some "function" | some "async" => g.functionDeclaration place
    | some "class" | some "abstract" => g.classDeclaration place
    | some "const" => g.enumDeclaration <|> g.variableDeclaration
    | some "let" | some "var" => g.variableDeclaration
    | some "interface" => g.interfaceDeclaration
    | some "enum" => g.enumDeclaration
    | some "type" => g.typeAlias
    | some "namespace" | some "module" => g.moduleDeclaration
    | some "import" => importAlias ["type", "typeof"]
    | some "declare" => g.ambientDeclaration (g.declarationFrom .part n)
    | some _ => failure
    | none => do
      nextIn ['@']
      g.classDeclaration place

/-- A declaration; the place is that of its body. -/
def declaration (g : Rules) (place : BlockPlace) : Parse Node := fun c =>
  g.declarationFrom place (c.size + 1) c

end Rules

end SourceChange.Syntax
