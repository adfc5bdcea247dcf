import SourceChange.Datum.Moment
import SourceChange.Text.Quoted

/-!
What can be wrong with a YAML text, where in it a reader stands, and the steps it takes.

Lines end at a line feed, at a next-line character and at the separators of lines and paragraphs. The
column counts the characters since the last line end, byte order marks apart.
-/

namespace SourceChange.Yaml

/-- What can be wrong with a YAML text. All but the first are texts of the right form with a scalar that is
not of the type it claims to be. -/
inductive Fault where
  | malformed
  /-- A text that is no whole number in a base. -/
  | notWhole (text : String) (base : Nat)
  /-- A text that is no number. -/
  | notNumber (text : String)
  /-- An empty text instead of a number. -/
  | emptyNumber
  /-- A text that is no truth value. -/
  | notTruth (text : String)
  /-- A text that is no moment. -/
  | notMoment
  /-- Numbers that make no moment. -/
  | badMoment (fault : MomentFault)
  /-- A number that is none of a character. -/
  | badCharacter
  /-- A number that is far too large for one of a character. -/
  | hugeCharacter
  deriving DecidableEq, Repr

namespace Fault

/-- The wording of a fault. -/
def message : Fault → String
  | malformed => "Invalid YAML"
  | notWhole text base =>
    "invalid literal for int() with base " ++ toString base ++ ": " ++ Text.quote text
  | notNumber text => "could not convert string to float: " ++ Text.quote text
  | emptyNumber => "string index out of range"
  | notTruth text => Text.quote text
  | notMoment => "'NoneType' object has no attribute 'groupdict'"
  | badMoment fault => fault.message
  | badCharacter => "chr() arg not in range(0x110000)"
  | hugeCharacter => "int too large to be the number of a character"

end Fault

/-- Where in a text a reader stands. -/
structure Cursor where
  /-- What follows. -/
  rest : List Char
  /-- How many characters precede. -/
  index : Nat
  line : Nat
  column : Nat
  deriving Repr

/-- Characters that may occur at all. -/
def isAllowed (c : Char) : Bool :=
  let n := c.toNat
  n == 0x09 || n == 0x0A || n == 0x0D || (0x20 ≤ n && n ≤ 0x7E) || n == 0x85
    || (0xA0 ≤ n && n ≤ 0xFFFD) || 0x10000 ≤ n

/-- Characters that end a line. -/
def isBreak (c : Char) : Bool :=
  c == '\n' || c == '\r' || c == '\x85' || c == '\u2028' || c == '\u2029'

/-- Spaces and tabs. -/
def isBlank (c : Char) : Bool := c == ' ' || c == '\t'

/-- Blanks and line ends. -/
def isGap (c : Char) : Bool := isBlank c || isBreak c

/-- Whether a place holds a gap or is the end of the text. -/
def isOpenPlace (c : Option Char) : Bool := (c.map isGap).getD true

/-- Whether a place holds a space, a line end or the end of the text. -/
def isSpaceOrEnd (c : Option Char) : Bool := (c.map fun c => c == ' ' || isBreak c).getD true

/-- Whether a place ends a line. -/
def isLineEnd (c : Option Char) : Bool := (c.map isBreak).getD true

/-- Characters of the names of anchors and tag handles. -/
def isNameChar (c : Char) : Bool := c.isAlphanum || c == '-' || c == '_'

/-- Marks that separate what stands in brackets. -/
def isFlowMark (c : Char) : Bool := c == ',' || c == '[' || c == ']' || c == '\x7b' || c == '\x7d'

namespace Cursor

/-- The start of a text. -/
def start (text : List Char) : Cursor := ⟨text, 0, 0, 0⟩

/-- Moves over one character. -/
def step (c : Cursor) : Cursor :=
  match c.rest with
  | [] => c
  | x :: r =>
    if isBreak x then ⟨r, c.index + 1, c.line + 1, 0⟩
    else ⟨r, c.index + 1, c.line, if x == '\uFEFF' then c.column else c.column + 1⟩

/-- Moves over characters. -/
def advance : Nat → Cursor → Cursor
  | 0, c => c
  | n + 1, c => advance n c.step

/-- Whether one of the marks between documents stands here. -/
def atMark (c : Cursor) : Bool :=
  (c.rest.take 3 == ['-', '-', '-'] || c.rest.take 3 == ['.', '.', '.']) && isOpenPlace c.rest[3]?

end Cursor

/-- Reading from a cursor on. -/
abbrev Scan := StateT Cursor (Except Fault)

namespace Scan

/-- The text is not of the right form. -/
def malformed {α : Type} : Scan α := throw .malformed

/-- The text has to be of the right form. -/
def require (ok : Bool) : Scan Unit := if ok then pure () else malformed

/-- The next character. -/
def next : Scan (Option Char) := do return (← get).rest.head?

/-- How much text is left, which bounds every repetition. -/
def bound : Scan Nat := do return (← get).rest.length + 1

/-- Moves over characters. -/
def skip (n : Nat) : Scan Unit := modify (Cursor.advance n)

/-- Takes the longest run of characters of a class. -/
def takeWhile (p : Char → Bool) : Scan (List Char) := do
  let run := (← get).rest.takeWhile p
  skip run.length
  return run

/-- Moves over spaces. -/
def skipSpaces : Scan Unit := do let _ ← takeWhile (· == ' ')

/-- Moves over a comment, if one starts here. -/
def skipComment : Scan Unit := do
  if (← next) == some '#' then
    let _ ← takeWhile fun c => !isBreak c

/-- Takes a line end, as scalars show it: nothing where there is none, and a line feed except for the
separators of lines and paragraphs. -/
def lineBreak : Scan (List Char) := do
  match (← get).rest with
  | [] => return []
  | c :: _ =>
    if !isBreak c then return []
    skip 1
    return [if c == '\u2028' || c == '\u2029' then c else '\n']

/-- The rest of a line that holds nothing but a comment. -/
def restOfLine : Scan Unit := do
  skipSpaces
  skipComment
  require (isLineEnd (← next))
  let _ ← lineBreak

end Scan

end SourceChange.Yaml
