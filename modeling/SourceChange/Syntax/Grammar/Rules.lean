import SourceChange.Syntax.Literal

/-!
The frame of the grammar.

The rules of the grammar refer to each other in circles. Each rule is written over `Rules`, which
stands for the whole grammar: to read a statement, an expression or another `Goal`, a rule asks
`Rules.run`. The circle is closed in one place, where `Rules.run` is given by recursion on a bound.
-/

/-! ### Words with a meaning of their own

Whether a word is a keyword depends on where it stands: it is one only where the grammar has a place
for it, and a plain name everywhere else. The lists below give, for each kind of place, the words
that are never names there.
-/

namespace SourceChange.Syntax.Words

/-- The words that start an operand and are never the name of a variable. -/
def operand : List String :=
  ["await", "class", "delete", "false", "function", "import", "null", "super", "this", "true",
    "typeof", "undefined", "using", "void", "yield"]

/-- The words that have a meaning of their own at the start of an operand but can also be the name of
a variable there. -/
def soft : List String :=
  ["declare", "namespace", "type", "public", "private", "protected", "override", "readonly",
    "module", "any", "number", "boolean", "string", "symbol", "export", "object", "new", "get",
    "set", "async", "static", "let"]

/-- The further words that are never names at the start of a statement. -/
def statement : List String :=
  ["abstract", "break", "const", "continue", "debugger", "do", "enum", "for", "if", "interface",
    "return", "switch", "throw", "try", "var", "while", "with"]

/-- The names of the built-in types. -/
def predefinedTypes : List String :=
  ["any", "number", "boolean", "string", "symbol", "void", "unknown", "never", "object"]

/-- The words that start a type and are never the name of one. -/
def type : List String :=
  predefinedTypes ++ ["abstract", "const", "false", "import", "infer", "keyof", "new", "null",
    "readonly", "this", "true", "typeof", "undefined", "unique"]

/-- The words that start a type and no operand. -/
def onlyType : List String := type.filter fun w => !operand.contains w && !soft.contains w

/-- The words that start an operand and no type. -/
def onlyOperand : List String := (operand ++ soft).filter fun w => !type.contains w

/-- The words that join two operands. -/
def joints : List String := ["as", "in", "instanceof", "satisfies"]

/-- The modifiers for who may use a member. -/
def access : List String := ["public", "private", "protected"]

end SourceChange.Syntax.Words

/-! ### Rules -/

namespace SourceChange.Syntax

/-- The innermost construct that waits for its right operand. What it is decides which operators the
operand may take for itself. -/
inductive Pending where
  /-- None that binds tighter than what may follow. -/
  | free
  /-- A sign or a word such as `typeof` before the operand. -/
  | unary
  /-- `++` or `--` before the operand. -/
  | increment
  /-- `await` before the operand. -/
  | awaited
  /-- A type in angle brackets before the operand. -/
  | asserted
  /-- A binary operator of the given level. -/
  | binary (level : Nat)
  /-- An assignment that is still to come, which takes nothing but a place to assign to. -/
  | place
  deriving DecidableEq, Repr

/-- The same for types. -/
inductive TypePending where
  /-- None that binds tighter than what may follow. -/
  | free
  /-- A `|` before the operand. -/
  | union
  /-- An operator that binds tighter than `|`. -/
  | tight
  deriving DecidableEq, Repr

/-- Where a block stands, which decides what could follow its closing brace. -/
inductive BlockPlace where
  /-- As a statement. With nothing in it, the block could be an object. -/
  | statement
  /-- As the body of what could be an expression. -/
  | value
  /-- As a part of anything else. -/
  | part
  deriving DecidableEq, Repr

/-- What a rule may ask the whole grammar for. -/
inductive Goal where
  | statement
  | block (place : BlockPlace)
  | exportation
  | operand (pending : Pending)
  | sequence
  | pattern
  | type (pending : TypePending)
  /-- An element, between the tags of another one or by itself. -/
  | element (inner : Bool)
  deriving DecidableEq, Repr

/-- The grammar as its own rules see it. -/
structure Rules where
  /-- Whether elements in angle brackets are part of the language; if not, type assertions are. -/
  elements : Bool
  /-- Reads one of the goals. -/
  run : Goal → Parse Node

namespace Rules

open Parse

def statement (g : Rules) : Parse Node := g.run .statement

def block (g : Rules) (place : BlockPlace) : Parse Node := g.run (.block place)

/-- An expression without commas. -/
def expression (g : Rules) : Parse Node := g.run (.operand .free)

/-- One or more expressions separated by commas. -/
def sequence (g : Rules) : Parse Node := g.run .sequence

def pattern (g : Rules) : Parse Node := g.run .pattern

def type (g : Rules) : Parse Node := g.run (.type .free)

def element (g : Rules) : Parse Node := g.run (.element true)

/-- Something in brackets, where line breaks mean nothing. -/
def enclosed (left right : String) (kind : Kind) (inner : Parse (List Node)) : Parse Node := do
  let a ← mark left
  let xs ← bracketed inner
  let b ← mark right
  node kind (a :: xs ++ [b])

/-- A keyword that is a construct of its own, such as `this`. -/
def word (w : String) (kind : Construct) : Parse Node := do
  return (← keyword w).withKind kind

/-- The value given to a variable, a parameter or a field. -/
def initializer (g : Rules) : Parse (List Node) := do
  let eq ← assignMark
  let value ← asRole .value g.expression
  return [eq, value]

/-- A name written as `[expression]`. -/
def computedName (g : Rules) : Parse Node :=
  enclosed "[" "]" Construct.computedPropertyName do return [← g.expression]

/-- A private name, such as `#count`. -/
def privateName : Parse Node :=
  leaf Construct.privatePropertyIdentifier fun
    | '#' :: r => (name? r).map fun (t, r') => ('#' :: t, r')
    | _ => none

/-- The name of a property or a member. -/
def propertyName (g : Rules) : Parse Node :=
  anyName Construct.propertyIdentifier <|> privateName <|> Parse.string <|> number <|> g.computedName

/-- The name of a member reached by a dot. -/
def memberName : Parse Node :=
  asRole .property (anyName Construct.propertyIdentifier <|> privateName)

/-- Names joined by dots, each step a node of the given kind. -/
def dotted (kind : Construct) (head : Node) : Parse Node :=
  extend (fun n => asComplete do
    let dot ← mark "."
    let p ← asRole .property (anyName Construct.propertyIdentifier)
    node kind [n, dot, p]) head

/-- Template text up to the closing mark, an escape, a place for an expression or a null character,
which no template has. -/
def templateText : List Char → List Char × List Char
  | [] => ([], [])
  | '$' :: '\x7b' :: r => ([], '$' :: '\x7b' :: r)
  | c :: r =>
    if c == '\x60' || c == '\\' || c == '\x00' then ([], c :: r)
    else
      let (t, r') := templateText r
      (c :: t, r')

/-- Template text as a leaf, which is never empty. -/
def templateFragment : Parse Node :=
  leafHere Construct.stringFragment fun cs =>
    match templateText cs with
    | ([], _) => none
    | x => some x

/-- A template literal, with or without places for expressions. -/
def templateString (g : Rules) : Parse Node := do
  let left ← mark "\x60"
  let inner ← many1 <|
    (do
      let a ← markHere "$\x7b"
      let e ← bracketed g.sequence
      let b ← mark "\x7d"
      node Construct.templateSubstitution [a, e, b])
    <|> leafHere Construct.escapeSequence escape?
    <|> templateFragment
  let right ← markHere "\x60"
  node Construct.templateString (left :: inner ++ [right])

end Rules

end SourceChange.Syntax
