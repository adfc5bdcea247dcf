import SourceChange.Syntax.Parse

/-!
Literals that hold no expressions: numbers, quoted strings, regular expressions and HTML character
references.
-/

namespace SourceChange.Syntax

/-- Digits with single underscores between them. -/
def digitTail (p : Char → Bool) : List Char → List Char × List Char
  | [] => ([], [])
  | '_' :: d :: r =>
    if p d then
      let (t, r') := digitTail p r
      ('_' :: d :: t, r')
    else ([], '_' :: d :: r)
  | d :: r =>
    if p d then
      let (t, r') := digitTail p r
      (d :: t, r')
    else ([], d :: r)

/-- A run of digits that starts with one. -/
def digits? (p : Char → Bool) : List Char → Option (List Char × List Char)
  | [] => none
  | d :: r => if p d then some (digitTail p (d :: r)) else none

/-- Takes the letter that marks a big integer along. -/
def withBigMark : List Char × List Char → List Char × List Char
  | (t, 'n' :: r) => (t ++ ['n'], r)
  | (t, r) => (t, r)

/-- The exponent at the front of a text, empty if there is none. -/
def exponent : List Char → List Char × List Char
  | e :: r =>
    if e == 'e' || e == 'E' then
      let (sign, r₁) := match r with
        | '+' :: r' => (['+'], r')
        | '-' :: r' => (['-'], r')
        | r' => ([], r')
      match digits? Char.isDigit r₁ with
      | some (t, r₂) => (e :: sign ++ t, r₂)
      | none => ([], e :: r)
    else ([], e :: r)
  | [] => ([], [])

/-- A number in the given base after its two-character mark. -/
def basedNumber? (a b : Char) (p : Char → Bool) (r : List Char) : Option (List Char × List Char) :=
  (digits? p r).map fun x =>
    let (t, r') := withBigMark x
    (a :: b :: t, r')

/-- A decimal number. -/
def decimalNumber? (cs : List Char) : Option (List Char × List Char) :=
  match cs with
  | '.' :: r =>
    (digits? Char.isDigit r).map fun (t, r') =>
      let (e, r'') := exponent r'
      ('.' :: t ++ e, r'')
  | _ =>
    (digits? Char.isDigit cs).map fun (t, r) =>
      match r with
      | 'n' :: r' => (t ++ ['n'], r')
      | '.' :: r' =>
        let (f, r₁) := (digits? Char.isDigit r').getD ([], r')
        let (e, r₂) := exponent r₁
        (t ++ '.' :: f ++ e, r₂)
      | _ =>
        let (e, r') := exponent r
        (t ++ e, r')

/-- The number at the front of a text, with what follows it. -/
def number? : List Char → Option (List Char × List Char)
  | '0' :: b :: r =>
    if b == 'x' || b == 'X' then basedNumber? '0' b isHexDigit r
    else if b == 'b' || b == 'B' then basedNumber? '0' b (fun c => c == '0' || c == '1') r
    else if b == 'o' || b == 'O' then basedNumber? '0' b (fun c => '0' ≤ c && c ≤ '7') r
    else decimalNumber? ('0' :: b :: r)
  | cs => decimalNumber? cs

/-- The escape sequence at the front of a text, with what follows it. -/
def escape? : List Char → Option (List Char × List Char)
  | '\\' :: 'x' :: a :: b :: r =>
    if isHexDigit a && isHexDigit b then some (['\\', 'x', a, b], r) else none
  | '\\' :: 'u' :: r => nameEscape? ('\\' :: 'u' :: r)
  | '\\' :: '\r' :: '\n' :: r => some (['\\', '\r', '\n'], r)
  | '\\' :: c :: r =>
    if c == 'x' then none
    else if '0' ≤ c && c ≤ '7' then
      let t := (c :: r.take 2).takeWhile fun d => '0' ≤ d && d ≤ '7'
      some ('\\' :: t, (c :: r).drop t.length)
    else some (['\\', c], r)
  | _ => none

/-- A run of characters of a class, with what follows it; an empty run is none. -/
def run? (p : Char → Bool) (cs : List Char) : Option (List Char × List Char) :=
  match cs.takeWhile p with
  | [] => none
  | t => some (t, cs.dropWhile p)

/-- The character reference, such as `&nbsp;`, at the front of a text, with what follows it. -/
def reference? : List Char → Option (List Char × List Char)
  | '&' :: '#' :: r =>
    let (x, r₁, p, most) : List Char × List Char × (Char → Bool) × Nat := match r with
      | 'x' :: r' => (['x'], r', isHexDigit, 6)
      | 'X' :: r' => (['X'], r', isHexDigit, 6)
      | r' => ([], r', Char.isDigit, 5)
    match run? p r₁ with
    | some (t, ';' :: r₂) => if t.length ≤ most then some ('&' :: '#' :: x ++ t ++ [';'], r₂) else none
    | _ => none
  | '&' :: r =>
    match run? Char.isAlpha r with
    | some (t, ';' :: r') => if t.length ≤ 30 then some ('&' :: t ++ [';'], r') else none
    | _ => none
  | _ => none

/-- The text of a quoted attribute value up to its quote or the next character reference. -/
def attributeText (quote : Char) : List Char → List Char × List Char
  | [] => ([], [])
  | '&' :: c :: r =>
    if c == '#' || c.isAlpha then ([], '&' :: c :: r)
    else
      let (t, r') := attributeText quote r
      ('&' :: c :: t, r')
  | c :: r =>
    if c == quote || c == '&' then ([], c :: r)
    else
      let (t, r') := attributeText quote r
      (c :: t, r')

/-- The characters of a class in a regular expression, up to and including its closing bracket. -/
def regexClass? : List Char → Option (List Char × List Char)
  | [] => none
  | ']' :: r => some ([']'], r)
  | '\n' :: _ => none
  | '\\' :: c :: r =>
    if c == '\n' then none else (regexClass? r).map fun (t, r') => ('\\' :: c :: t, r')
  | c :: r => (regexClass? r).map fun (t, r') => (c :: t, r')

/-- The pattern of a regular expression up to its closing slash, with at most the given number of
steps. -/
def regexBody : Nat → List Char → Option (List Char × List Char)
  | 0, _ => none
  | _ + 1, [] => none
  | _ + 1, '/' :: r => some ([], '/' :: r)
  | _ + 1, '\n' :: _ => none
  | n + 1, '\\' :: c :: r =>
    if c == '\n' then none else (regexBody n r).map fun (t, r') => ('\\' :: c :: t, r')
  | n + 1, '[' :: r =>
    match regexClass? r with
    | some (t, r') => (regexBody n r').map fun (u, r'') => ('[' :: t ++ u, r'')
    | none => none
  | n + 1, c :: r => (regexBody n r).map fun (t, r') => (c :: t, r')

/-- The pattern of a regular expression. It is not empty, and no comment starts it. -/
def regexPattern? (cs : List Char) : Option (List Char × List Char) :=
  if cs.head? == some '/' || (comment? (cs.dropWhile isSpace)).isSome then none
  else regexBody (cs.length + 1) cs

namespace Parse

/-- A number. -/
def number : Parse Node := leaf Construct.numberLiteral number?

/-- A string in the given quotes. A line break ends its text, and only blank space and comments may
stand between the break and the closing quote. -/
def quoted (quote : Char) : Parse Node := do
  let q := String.ofList [quote]
  let first ← mark q
  let inner ← many1 <|
    leafHere Construct.stringFragment
        (run? fun c => c != quote && c != '\\' && c != '\r' && c != '\n')
      <|> leafHere Construct.escapeSequence escape?
  complete
  let last ← mark q
  node Construct.stringLiteral (first :: inner ++ [last])

/-- A string literal. -/
def string : Parse Node := quoted '\x22' <|> quoted '\x27'

/-- A quoted attribute value. It may span lines, and character references stand for themselves. -/
def attributeQuoted (quote : Char) : Parse Node := do
  let q := String.ofList [quote]
  let first ← mark q
  let inner ← many <|
    (do
      htmlComment
      return [])
    <|> (do return [← leafHere Construct.htmlCharacterReference reference?])
    <|> (do
      return [← leafHere Construct.stringFragment fun cs =>
        match attributeText quote cs with
        | ([], _) => none
        | (t, r) => some (t, r)])
  let last ← markHere q
  node Construct.stringLiteral (first :: inner ++ [last])

/-- A quoted attribute value in either quotes. -/
def attributeString : Parse Node := attributeQuoted '\x22' <|> attributeQuoted '\x27'

/-- A regular expression. Words that join two operands are no flags. -/
def regex : Parse Node := do
  let first ← mark "/"
  let body ← leafHere Construct.regexPattern regexPattern?
  let last ← markHere "/"
  let flags ← opt1 do
    directComments
    leafHere Construct.regexFlags fun cs =>
      (run? (fun c => 'a' ≤ c && c ≤ 'z') cs).filter fun (t, _) =>
        !(["as", "in", "instanceof", "satisfies"].any (·.toList == t))
  node Construct.regexLiteral (first :: body :: last :: flags)

end Parse

end SourceChange.Syntax
