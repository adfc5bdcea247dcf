import SourceChange.Syntax.Node

/-!
Positions in a source text.

A `Cursor` holds what is left of the text, the byte offset reached, the end of the last token and the
comments passed so far. Blank space and comments may stand between any two tokens; a line break may
also stand for a semicolon, by the rule of `Cursor.lineEnd?`.
-/

namespace SourceChange.Syntax

/-- The number of bytes that characters take in UTF-8. -/
def byteSize : List Char → Nat
  | [] => 0
  | c :: cs => c.utf8Size + byteSize cs

/-- Space separators: the characters, other than the ASCII controls, that count as blank space in
source text. -/
def isSpaceSeparator (c : Char) : Bool :=
  let n := c.toNat
  n == 0x20 || n == 0xA0 || n == 0x1680 || (0x2000 ≤ n && n ≤ 0x200B) || n == 0x2028 || n == 0x2029
    || n == 0x202F || n == 0x205F || n == 0x2060 || n == 0x3000 || n == 0xFEFF

/-- Blank space between tokens. -/
def isSpace (c : Char) : Bool := (0x09 ≤ c.toNat && c.toNat ≤ 0x0D) || isSpaceSeparator c

/-- Blank space where line breaks count: around the end of a statement and between two tags. Spaces
that do not break are none. -/
def isBlank (c : Char) : Bool :=
  let n := c.toNat
  (0x09 ≤ n && n ≤ 0x0D) || n == 0x20 || n == 0x1680 || (0x2000 ≤ n && n ≤ 0x2006)
    || (0x2008 ≤ n && n ≤ 0x200A) || n == 0x2028 || n == 0x2029 || n == 0x205F || n == 0x3000

/-- The ASCII characters that end a name; everything else that is no control character and no blank
space may stand in one. -/
def nameStops : List Char :=
  [':', ';', '\x60', '\x22', '\x27', '@', '#', '.', ',', '|', '^', '&', '<', '=', '>', '+', '-',
    '*', '/', '\\', '%', '?', '!', '~', '(', ')', '[', ']', '\x7b', '\x7d']

/-- Characters of a name after the first one. -/
def isNameChar (c : Char) : Bool :=
  0x1F < c.toNat && !isSpaceSeparator c && !nameStops.contains c

/-- Characters that may start a name. -/
def isNameStart (c : Char) : Bool := isNameChar c && !c.isDigit

/-- Hexadecimal digits. -/
def isHexDigit (c : Char) : Bool :=
  c.isDigit || ('a' ≤ c && c ≤ 'f') || ('A' ≤ c && c ≤ 'F')

/-- An escaped character of a name, such as `\u0061` or `\u{61}`: what it takes and what follows. -/
def nameEscape? : List Char → Option (List Char × List Char)
  | '\\' :: 'u' :: '\x7b' :: r =>
    let ds := r.takeWhile isHexDigit
    match r.dropWhile isHexDigit with
    | '\x7d' :: r' => if ds.isEmpty then none else some ('\\' :: 'u' :: '\x7b' :: ds ++ ['\x7d'], r')
    | _ => none
  | '\\' :: 'u' :: a :: b :: c :: d :: r =>
    if [a, b, c, d].all isHexDigit then some (['\\', 'u', a, b, c, d], r) else none
  | _ => none

/-- The longest run of name characters, the first `known` of which are part of an escape and need no
test. -/
def nameRun (known : Nat) : List Char → List Char × List Char
  | [] => ([], [])
  | c :: cs =>
    match known with
    | n + 1 =>
      let (t, r) := nameRun n cs
      (c :: t, r)
    | 0 =>
      if isNameChar c then
        let (t, r) := nameRun 0 cs
        (c :: t, r)
      else
        match nameEscape? (c :: cs) with
        | some (e, _) =>
          let (t, r) := nameRun (e.length - 1) cs
          (c :: t, r)
        | none => ([], c :: cs)

/-- The name at the front of a text, with what follows it. -/
def name? : List Char → Option (List Char × List Char)
  | [] => none
  | c :: cs =>
    if isNameStart c || (nameEscape? (c :: cs)).isSome then some (nameRun 0 (c :: cs))
    else none

/-- Characters that end a line comment. -/
def endsLine (c : Char) : Bool :=
  c == '\n' || c == '\r' || c.toNat == 0x2028 || c.toNat == 0x2029

/-- What precedes and what follows the end of a block comment. -/
def blockEnd? : List Char → Option (List Char × List Char)
  | [] => none
  | '*' :: '/' :: r => some (['*', '/'], r)
  | c :: r => (blockEnd? r).map fun (t, r') => (c :: t, r')

/-- The comment at the front of a text, with what follows it. -/
def comment? : List Char → Option (List Char × List Char)
  | '/' :: '/' :: r =>
    some ('/' :: '/' :: r.takeWhile (!endsLine ·), r.dropWhile (!endsLine ·))
  | '/' :: '*' :: r => (blockEnd? r).map fun (t, r') => ('/' :: '*' :: t, r')
  | _ => none

/-- What follows `pre` in a text that starts with it. -/
def afterPrefix? : List Char → List Char → Option (List Char)
  | [], cs => some cs
  | _ :: _, [] => none
  | p :: ps, c :: cs => if p = c then afterPrefix? ps cs else none

/-- The comment in the style of HTML at the front of a text: from `<!--` or `-->` to the end of the
line. -/
def htmlComment? (cs : List Char) : Option (List Char × List Char) :=
  let line (r : List Char) : List Char × List Char :=
    let stops (c : Char) : Bool := c == '\n' || c.toNat == 0x2028 || c.toNat == 0x2029
    (r.takeWhile (!stops ·), r.dropWhile (!stops ·))
  match cs with
  | '<' :: '!' :: '-' :: '-' :: _ => some (line cs)
  | '-' :: '-' :: '>' :: _ => some (line cs)
  | _ => none

/-- How the text around a position bears on what may stand there. -/
structure Mode where
  /-- Whether a line break may end a statement or a member here. -/
  breaks : Bool
  /-- Whether a type here is part of an expression, so that an operator may follow it. -/
  inValue : Bool
  /-- Whether the colon of a condition has to follow, so that an arrow function that states its result
  type must come before it. -/
  inCondition : Bool
  /-- Whether a type here may be that of a function. -/
  functionTypes : Bool
  /-- Whether patterns here may well turn out to be expressions. Then they are made of names, members
  and brackets only. -/
  simplePatterns : Bool

/-- Among statements or members. -/
def Mode.block : Mode := ⟨true, false, false, true, false⟩

/-- Within brackets, where line breaks mean nothing. -/
def Mode.brackets : Mode := ⟨false, false, false, true, false⟩

/-- A position in a source text. -/
structure Cursor where
  /-- The text from here on. -/
  rest : List Char
  /-- The number of characters of the whole text, which bounds every repetition in it. -/
  size : Nat
  /-- The byte offset of `rest`. -/
  offset : Nat
  /-- The byte offset at which the last token ended. -/
  last : Nat
  /-- The comments passed so far, latest first. -/
  comments : List Node
  /-- What the surroundings allow. -/
  mode : Mode
  /-- Whether what has been read could be complete, so that an operator or the end of a statement
  could come next. Then `<!--` and `-->` start no comment. -/
  complete : Bool
  /-- Whether a name could come next. Then a word has to end where a name would end. -/
  fullWords : Bool

namespace Cursor

/-- The beginning of a text. -/
def ofChars (cs : List Char) : Cursor := ⟨cs, cs.length, 0, 0, [], .block, false, false⟩

/-- The position after `taken`, which `rest` follows. -/
def past (c : Cursor) (taken rest : List Char) : Cursor :=
  { c with rest := rest, offset := c.offset + byteSize taken }

/-- Passes a comment of the given kind and keeps it. -/
def pastExtra (kind : Construct) (c : Cursor) (taken rest : List Char) : Cursor :=
  let stop := c.offset + byteSize taken
  { c with
    rest := rest
    offset := stop
    comments := .mk kind none ⟨c.offset, stop⟩ [] :: c.comments }

/-- Passes a comment and keeps it. -/
def pastComment (c : Cursor) (taken rest : List Char) : Cursor := c.pastExtra .comment taken rest

/-- Passes blank space and comments, at most the given number of times. -/
def skipFrom : Nat → Cursor → Cursor
  | 0, c => c
  | n + 1, c =>
    match c.rest with
    | [] => c
    | x :: r =>
      if isSpace x then skipFrom n (c.past [x] r)
      else
        match comment? (x :: r) with
        | some (t, r') => skipFrom n (c.pastComment t r')
        | none =>
          if c.complete then c
          else
            match htmlComment? (x :: r) with
            | some (t, r') => skipFrom n (c.pastExtra .htmlComment t r')
            | none => c

/-- Passes all blank space and comments. -/
def skip (c : Cursor) : Cursor := skipFrom c.size c

/-- Passes comments that no blank space separates, at most the given number of them. -/
def skipDirectFrom : Nat → Cursor → Cursor
  | 0, c => c
  | n + 1, c =>
    match comment? c.rest with
    | some (t, r) => skipDirectFrom n (c.pastComment t r)
    | none => c

/-- Passes comments that no blank space separates. -/
def skipDirect (c : Cursor) : Cursor := skipDirectFrom c.size c

/-- What ends a statement without a semicolon depends on what could stand there instead. -/
structure BreakRule where
  /-- A binary operator could follow, so a bracket on the next line continues the expression. -/
  operators : Bool
  /-- A body could follow, so a brace on the next line opens it. -/
  signature : Bool

/-- After an expression. -/
def BreakRule.expression : BreakRule := ⟨true, false⟩

/-- After a type, or after a keyword that needs nothing to follow. -/
def BreakRule.plain : BreakRule := ⟨false, false⟩

/-- After the head of a function that may have a body. -/
def BreakRule.head : BreakRule := ⟨false, true⟩

/-- Drops blank space and comments, at most the given number of times. The flag tells whether a line
comment was among them. -/
def dropTrivia : Nat → Bool → List Char → Bool × List Char
  | 0, seen, cs => (seen, cs)
  | _ + 1, seen, [] => (seen, [])
  | n + 1, seen, c :: cs =>
    if isBlank c then dropTrivia n seen cs
    else
      match comment? (c :: cs) with
      | some (_, r) => dropTrivia n (seen || cs.head? == some '/') r
      | none => (seen, c :: cs)

/-- Whether a line that starts with this text starts a new statement: it does not if its first
character could continue the expression of the line before. -/
def startsStatement (rule : BreakRule) : List Char → Bool
  | [] => true
  | '+' :: r => r.head? == some '+'
  | '-' :: r => r.head? == some '-'
  | '!' :: r => r.head? != some '='
  | '(' :: _ => !rule.operators
  | '[' :: _ => !rule.operators
  | '\x7b' :: _ => !rule.signature
  | 'i' :: 'n' :: r =>
    match afterPrefix? "stanceof".toList r with
    | some r' => (r'.head?.map Char.isAlpha).getD false
    | none => (r.head?.map Char.isAlpha).getD false
  | c :: _ => !"\x60,.;*%><=?^|&/:".toList.contains c

/-- Whether a statement may end before this text, which stands on the same line: at the end of the
text, before a closing brace, and before a line break unless the next line continues it. At most
`size` characters are looked at there. -/
def endsHere (rule : BreakRule) (size : Nat) : List Char → Bool
  | [] => true
  | '\x7d' :: r => (r.dropWhile isBlank).head? != some ':' || rule.operators
  | '\n' :: r => startsStatement rule (dropTrivia size false r).2
  | c :: r => isBlank c && endsHere rule size r

/-- Blank space within a line. -/
def isLineSpace (c : Char) : Bool := isSpace c && c != '\n'

/-- Passes comments with the blank space before them, at most the given number of them. Which
characters are blank is up to the caller. -/
def skipCommentsFrom (blank : Char → Bool) : Nat → Cursor → Cursor
  | 0, c => c
  | n + 1, c =>
    let r := c.rest.dropWhile blank
    match comment? r with
    | some (t, r') => skipCommentsFrom blank n ((c.past (c.rest.takeWhile blank) r).pastComment t r')
    | none => c

/-- Passes comments with the blank space before them, but no blank space after the last one. -/
def skipComments (blank : Char → Bool) (c : Cursor) : Cursor := skipCommentsFrom blank c.size c

/-- The end of a statement that has no semicolon. Comments before it on the same line belong to the
statement. -/
def lineEndFrom (rule : BreakRule) : Nat → Cursor → Option Cursor
  | 0, _ => none
  | n + 1, c =>
    if endsHere rule c.size c.rest then some c
    else
      let blanks := c.rest.takeWhile isLineSpace
      let r := c.rest.dropWhile isLineSpace
      match comment? r with
      | some (t, r') =>
        let c' := (c.past blanks r).pastComment t r'
        lineEndFrom rule n { c' with last := c'.offset }
      | none => none

/-- The end of a statement that has no semicolon, if it may end here. -/
def lineEnd? (rule : BreakRule) (c : Cursor) : Option Cursor :=
  lineEndFrom rule (c.size + 1) c

/-- Whether an expression or a type has to stop here because a line break ends the statement. -/
def mustStop (rule : BreakRule) (c : Cursor) : Bool := c.mode.breaks && (c.lineEnd? rule).isSome

end Cursor

end SourceChange.Syntax
