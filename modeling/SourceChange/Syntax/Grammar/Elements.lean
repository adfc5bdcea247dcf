import SourceChange.Syntax.Grammar.Types

/-!
Elements in angle brackets: tags, attributes and children.
-/

namespace SourceChange.Syntax

namespace Rules

open Parse

/-- Characters of a name with dashes, other than the dash. -/
def isTagChar (c : Char) : Bool := c.isAlphanum || c == '_' || c == '$'

/-- A name in a tag, which may contain dashes. -/
def tagWord? (cs : List Char) : Option (List Char × List Char) :=
  match name? cs with
  | some (t, '-' :: r) =>
    if t.all isTagChar then
      let more := r.takeWhile fun c => isTagChar c || c == '-'
      some (t ++ '-' :: more, r.dropWhile fun c => isTagChar c || c == '-')
    else some (t, '-' :: r)
  | x => x

/-- A name in a namespace, such as `svg:rect`. After a namespace without dashes the given words
cannot be the name. -/
def namespaceName (reserved : List String) : Parse Node := do
  let text ← upcoming
  let a ← leaf Construct.identifier tagWord?
  let reserved := if tagWord? text == name? text then reserved else []
  let colon ← mark ":"
  let b ← leaf Construct.identifier fun cs =>
    (tagWord? cs).filter fun (t, _) => !reserved.any (·.toList == t)
  node Construct.jsxNamespaceName [a, colon, b]

/-- A name without dashes with the members reached from it. -/
def memberTag : Parse Node := do
  let text ← upcoming
  require (tagWord? text == name? text)
  let head ← anyName Construct.identifier
  dotted .memberExpression head

/-- The name of a tag: plain, in a namespace, or a path of members. The given words cannot be the
name in a namespace. -/
def tagName (reserved : List String) : Parse Node :=
  namespaceName reserved
  <|> (do
    let path ← memberTag
    require (path.is .memberExpression)
    return path)
  <|> leaf Construct.identifier tagWord?

/-- An expression in braces, in a tag or between tags. It may be empty. -/
def elementExpression (g : Rules) : Parse Node :=
  enclosed "\x7b" "\x7d" Construct.jsxExpression <| opt1 <|
    (do
      let dots ← mark "..."
      let e ← g.expression
      node Construct.spreadElement [dots, e])
    <|> g.sequence

/-- An attribute with or without a value. -/
def elementAttribute (g : Rules) : Parse Node := do
  let name ← namespaceName [] <|> leaf Construct.propertyIdentifier tagWord?
  let value ← opt do
    let eq ← mark "="
    let v ← attributeString <|> g.elementExpression <|> g.element
    return [eq, v]
  node Construct.jsxAttribute (name :: value)

/-- Characters that may stand in the text between two tags. -/
def isElementText (c : Char) : Bool := !(['<', '>', '\x7b', '\x7d', '&', '\x00'].contains c)

/-- The text between two tags. Blank space that starts with a line break is no text. -/
def elementText? (cs : List Char) : Option (List Char × List Char) :=
  let t := cs.takeWhile isElementText
  if t.isEmpty || (t.head? == some '\n' && t.all isBlank) then none
  else some (t, cs.dropWhile isElementText)

/-- What may stand between two tags. -/
def elementChild (g : Rules) : Parse Node :=
  leafHere Construct.jsxText elementText?
  <|> leaf Construct.htmlCharacterReference reference?
  <|> g.elementExpression
  <|> (do
    notAhead (mark "</")
    g.element)

/-- Whether the name of a tag may have type arguments: it has no dash and no namespace. -/
def takesTypeArguments (name : Node) (text : List Char) : Bool :=
  name.is .memberExpression || (name.is .identifier && (tagWord? text == name? text))

/-- An element: a tag that closes itself, or an opening tag, children and a closing tag. The two tags
need not agree. An element that is not between other tags starts like the type parameters of a
function, and the words that have a meaning there are no names. -/
def elementRule (g : Rules) (inner : Bool) : Parse Node := bracketed do
  let left ← mark "<"
  let head ← opt do
    let text ← upcoming
    require (inner || (← nextName) != some "const")
    let name ← tagName (if inner then [] else Words.type)
    let targs ← if takesTypeArguments name text then opt1 g.typeArguments else pure []
    require (inner || !name.is .identifier || !targs.isEmpty || (← nextName) != some "extends")
    let attributes ← many1 (g.elementExpression <|> g.elementAttribute)
    return name.withRole .name :: targs ++ attributes
  (do
    let right ← mark "/>"
    node Construct.jsxSelfClosingElement (left :: head ++ [right]))
  <|> (do
    let right ← mark ">"
    let opening ← node Construct.jsxOpeningElement (left :: head ++ [right])
    let children ← many <|
      (do return [← g.elementChild])
      <|> (do
        htmlComment
        return [])
    let left ← mark "</"
    let name ← opt1 (asRole .name (tagName []))
    let right ← mark ">"
    let closing ← node Construct.jsxClosingElement (left :: name ++ [right])
    node Construct.jsxElement
      (opening.withRole .openTag :: children ++ [closing.withRole .closeTag]))

end Rules

end SourceChange.Syntax
