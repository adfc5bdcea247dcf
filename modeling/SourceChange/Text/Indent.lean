import SourceChange.Text.Basic

/-!
Lines and their indentation. Besides line feeds and carriage returns, the separators of files, groups and
records and the line and paragraph separators end a line.

Indentation: finding out how a text is indented, and moving a block of lines to another indentation
while its lines keep their places relative to each other.
-/

namespace SourceChange.Text

/-- Characters that end a line. -/
def isLineBreak (c : Char) : Bool :=
  let n := c.toNat
  (0x0A ≤ n && n ≤ 0x0D) || (0x1C ≤ n && n ≤ 0x1E) || n == 0x85 || n == 0x2028 || n == 0x2029

/-- The lines of a text without their ends. A break at the end of the text starts no further line. -/
def lines : List Char → List (List Char)
  | [] => []
  | '\r' :: '\n' :: cs => [] :: lines cs
  | c :: cs =>
    if isLineBreak c then [] :: lines cs
    else
      match lines cs with
      | [] => [[c]]
      | l :: ls => (c :: l) :: ls

/-- The lines of a text, trimmed, without the blank ones. -/
def normalize (s : String) : String :=
  let ls := ((lines s.toList).map strip).filter (!·.isEmpty)
  String.ofList (joinWith ['\n'] ls)

/-- The brackets of tags and of embedded expressions. -/
def isBracket (c : Char) : Bool := c == '<' || c == '>' || c == '\x7b' || c == '\x7d'

/-- Drops the spaces next to brackets; `before` is the character before the text. -/
def tightenAfter (before : Option Char) : List Char → List Char
  | [] => []
  | c :: cs =>
    let next := (cs.head?.map isBracket).getD false
    if c == ' ' && ((before.map isBracket).getD false || next) then tightenAfter (some c) cs
    else c :: tightenAfter (some c) cs

/-- A text in which only the blanks between words count, and none next to brackets. Two pieces of
markup that differ in layout only have the same compact form. -/
def compact (s : String) : String := String.ofList (tightenAfter none (oneLine s.toList))

/-- Spaces and tabs. -/
def isIndent (c : Char) : Bool := c == ' ' || c == '\t'

/-- The spaces and tabs that each line starts with. -/
def indents (s : String) : List (List Char) :=
  ((splitOnChar '\n' s.toList).map (·.takeWhile isIndent)).filter (!·.isEmpty)

/-- The unit of indentation: a tab where some line starts with one, else the fewest spaces that some
line starts with, at most eight; two where no line is indented. -/
def indentUnit (s : String) : String :=
  let found := indents s
  if found.any (·.contains '\t') then "\t"
  else String.ofList (List.replicate (min ((found.map List.length).min?.getD 2) 8) ' ')

/-- The number of blanks that a line starts with. -/
def indentWidth (line : List Char) : Nat := (line.takeWhile isBlank).length

/-- Whether a line has nothing but blanks. -/
def isBlankLine (line : List Char) : Bool := line.all isBlank

/-- The lines of a block, where line feeds at its ends do not count. -/
def blockLines (s : String) : List (List Char) := lines (trim (· == '\n') s.toList)

/-- The widths of the indentations of the lines that are not blank. -/
def indentWidths (ls : List (List Char)) : List Nat :=
  (ls.filter fun l => !isBlankLine l).map indentWidth

/-- A line moved from indentation `base` to `indent`; blank lines stay empty. -/
def rebase (indent : List Char) (base : Nat) (line : List Char) : List Char :=
  if isBlankLine line then [] else indent ++ stripEnd (line.drop base)

/-- A block for insertion at a place that is already at `indent`: the first line is trimmed, and the
others keep their indentation relative to each other. -/
def reindent (block indent : String) : String :=
  match blockLines block with
  | [] => ""
  | first :: rest =>
    let base := (indentWidths rest).min?.getD 0
    String.ofList (joinWith ['\n'] (strip first :: rest.map (rebase indent.toList base)))

/-- The indentation that the lines of a block share. Where the first line has none, the others alone
decide. -/
def sharedIndent (first : List Char) (ls : List (List Char)) : Nat :=
  let widths := indentWidths ls
  if indentWidth first == 0 && 1 < widths.length then (widths.drop 1).min?.getD 0
  else widths.min?.getD 0

/-- The statements of a block as lines at `indent`. -/
def statementLines (body indent : String) : String :=
  match blockLines body with
  | [] => ""
  | first :: rest =>
    let base := sharedIndent first (first :: rest)
    let head :=
      if !isBlankLine first && indentWidth first == 0 then indent.toList ++ strip first
      else rebase indent.toList base first
    String.ofList (joinWith ['\n'] (head :: rest.map (rebase indent.toList base)))

/-- A text that ends with a line feed, unless it is empty. -/
def withFinalNewline (s : String) : String :=
  if s == "" || hasEnd s "\n" then s else s ++ "\n"

end SourceChange.Text
