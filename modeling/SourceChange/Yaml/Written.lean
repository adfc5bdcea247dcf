import SourceChange.Number.Reader
import SourceChange.Yaml.Cursor

/-!
The texts of scalars: plain, in quotes, and as blocks of lines.

Line ends within plain and quoted scalars are folded: a single one becomes a space, and of several all but
the first stay. Blocks keep their lines, or fold those that are not indented further.
-/

namespace SourceChange.Yaml

open Scan

/-- Line ends as they are folded. -/
def folded (first breaks : List Char) : List Char :=
  if first != ['\n'] then first ++ breaks else if breaks.isEmpty then [' '] else breaks

/-- The part of a plain scalar up to the next gap. Between brackets, marks end it too. -/
def plainRun (inFlow : Bool) : List Char → List Char
  | [] => []
  | c :: cs =>
    let endsKey := c == ':' && (isOpenPlace cs.head? || (inFlow && (cs.head?.map isFlowMark).getD false))
    if isGap c || endsKey || (inFlow && (isFlowMark c || c == '?')) then [] else c :: plainRun inFlow cs

/-- Line ends and spaces after the first line end in a plain scalar; nothing where a mark between documents
comes. -/
def plainBreaks : Nat → Scan (Option (List Char))
  | 0 => malformed
  | n + 1 => do
    match ← next with
    | some ' ' =>
      skip 1
      plainBreaks n
    | some c =>
      if isBreak c then
        let b ← lineBreak
        if (← get).atMark then return none
        return (← plainBreaks n).map (b ++ ·)
      else return some []
    | none => return some []

/-- A gap in a plain scalar, and whether a line ends in it. -/
def plainGap : Scan (List Char × Bool) := do
  let spaces ← takeWhile (· == ' ')
  if ((← next).map isBreak).getD false then
    let first ← lineBreak
    if (← get).atMark then return ([], true)
    match ← plainBreaks (← bound) with
    | none => return ([], true)
    | some breaks => return (folded first breaks, true)
  else return (spaces, false)

/-- A plain scalar from a gap on, and whether a line ends after it. It goes on over lines that reach the
margin; between brackets, over all. -/
def plainFrom (margin : Nat) (inFlow : Bool) : Nat → List Char → Bool → Scan (List Char × Bool)
  | 0, _, _ => malformed
  | n + 1, gap, broken => do
    let text := (← get).rest
    let run := if text.head? == some '#' then [] else plainRun inFlow text
    if run.isEmpty then return ([], broken)
    skip run.length
    let (after, broken) ← plainGap
    let goesOn := !after.isEmpty && (← next) != some '#' && (inFlow || margin ≤ (← get).column)
    if goesOn then
      let (more, broken) ← plainFrom margin inFlow n after broken
      return (gap ++ run ++ more, broken)
    else return (gap ++ run, broken)

/-- A plain scalar, and whether a line ends after it. -/
def plain (margin : Nat) (inFlow : Bool) : Scan (String × Bool) := do
  let (text, broken) ← plainFrom margin inFlow (← bound) [] false
  return (String.ofList text, broken)

/-- The characters that stand for themselves after a backslash, or for a control character. -/
def escapes : List (Char × Nat) :=
  [('0', 0), ('a', 7), ('b', 8), ('t', 9), ('\t', 9), ('n', 10), ('v', 11), ('f', 12), ('r', 13),
   ('e', 27), (' ', 32), ('\x22', 34), ('\\', 92), ('/', 47), ('N', 0x85), ('_', 0xA0), ('L', 0x2028),
   ('P', 0x2029)]

/-- The number of hexadecimal digits of an escape. -/
def hexWidth? : Char → Option Nat
  | 'x' => some 2
  | 'u' => some 4
  | 'U' => some 8
  | _ => none

/-- Line ends and the blanks around them in a quoted scalar. -/
def quotedBreaks : Nat → Scan (List Char)
  | 0 => malformed
  | n + 1 => do
    require !(← get).atMark
    let _ ← takeWhile isBlank
    let b ← lineBreak
    if b.isEmpty then return []
    return b ++ (← quotedBreaks n)

/-- A gap in a quoted scalar. -/
def quotedGap : Scan (List Char) := do
  let blanks ← takeWhile isBlank
  let first ← lineBreak
  if first.isEmpty then return blanks
  return folded first (← quotedBreaks (← bound))

/-- The character with a number. -/
def character (n : Nat) : Scan Char :=
  if 0x7FFFFFFF < n then throw .hugeCharacter
  else if 0x10FFFF < n then throw .badCharacter
  else pure (Char.ofNat n)

/-- What an escape stands for, after its backslash. -/
def escaped : Scan (List Char) := do
  match (← get).rest with
  | [] => malformed
  | c :: r =>
    match hexWidth? c, escapes.lookup c with
    | some w, _ =>
      let ds := r.take w
      require (ds.length == w && ds.all Number.isHexDigit)
      let x ← character (Number.ofBase 16 ds)
      skip (w + 1)
      return [x]
    | none, some code =>
      skip 1
      return [Char.ofNat code]
    | none, none =>
      require (isBreak c)
      let _ ← lineBreak
      quotedBreaks (← bound)

/-- The rest of a scalar in quotes, up to and with the closing one. Double quotes take escapes, and a single
quote is written twice between single ones. -/
def quotedFrom (double : Bool) : Nat → Scan (List Char)
  | 0 => malformed
  | n + 1 => do
    match (← get).rest with
    | [] => malformed
    | c :: r =>
      if isGap c then
        let gap ← quotedGap
        return gap ++ (← quotedFrom double n)
      else
        skip 1
        if double && c == '\\' then
          let x ← escaped
          return x ++ (← quotedFrom double n)
        else if c == (if double then '\x22' else '\x27') then
          if !double && r.head? == some '\x27' then
            skip 1
            return '\x27' :: (← quotedFrom double n)
          else return []
        else return c :: (← quotedFrom double n)

/-- A scalar in quotes. -/
def quoted : Scan String := do
  let double := (← next) == some '\x22'
  skip 1
  return String.ofList (← quotedFrom double (← bound))

/-- What becomes of the line ends at the end of a block: all but one are dropped, all are dropped, or all
stay. -/
inductive Chomping where
  | clip
  | strip
  | keep
  deriving DecidableEq, Repr

/-- The sign that says what becomes of the line ends at the end of a block. -/
def chomping? : Option Char → Option Chomping
  | some '+' => some .keep
  | some '-' => some .strip
  | _ => none

/-- The digit that says how far a block is indented. -/
def increment : Scan (Option Nat) := do
  match ← next with
  | some c =>
    if c.isDigit then
      require (c != '0')
      skip 1
      return some (c.toNat - 0x30)
    else return none
  | none => return none

/-- The sign and the digit at the head of a block, in either order. -/
def blockHead : Scan (Chomping × Option Nat) := do
  match chomping? (← next) with
  | some sign =>
    skip 1
    return (sign, ← increment)
  | none =>
    match ← increment with
    | none => return (.clip, none)
    | some n =>
      match chomping? (← next) with
      | some sign =>
        skip 1
        return (sign, some n)
      | none => return (.clip, some n)

/-- Empty lines before a block, and the furthest indentation up to its first line. -/
def leadingBreaks : Nat → Nat → Scan (List (List Char) × Nat)
  | 0, _ => malformed
  | n + 1, furthest => do
    match ← next with
    | some ' ' =>
      skip 1
      leadingBreaks n (max furthest (← get).column)
    | some c =>
      if isBreak c then
        let b ← lineBreak
        let (more, furthest) ← leadingBreaks n furthest
        return (b :: more, furthest)
      else return ([], furthest)
    | none => return ([], furthest)

/-- Moves over the spaces that indent a line of a block. -/
def skipIndent (indent : Nat) : Scan Unit := do
  let c ← get
  skip (min (c.rest.takeWhile (· == ' ')).length (indent - c.column))

/-- Empty lines within a block. -/
def blockBreaks (indent : Nat) : Nat → Scan (List (List Char))
  | 0 => malformed
  | n + 1 => do
    skipIndent indent
    let b ← lineBreak
    if b.isEmpty then return []
    return b :: (← blockBreaks indent n)

/-- Whether a line of a block comes next. -/
def atBlockLine (indent : Nat) : Scan Bool := do
  let c ← get
  return c.column == indent && !c.rest.isEmpty

/-- The lines of a block from the empty lines before one of them on: the text up to the last line, its line
end, and the empty lines after it. -/
def blockLines (fold : Bool) (indent : Nat) :
    Nat → List (List Char) → Scan (List Char × List Char × List (List Char))
  | 0, _ => malformed
  | n + 1, breaks => do
    let isFurther (c : Option Char) : Bool := (c.map isBlank).getD false
    let further := isFurther (← next)
    let line ← takeWhile fun c => !isBreak c
    let stop ← lineBreak
    let after ← blockBreaks indent (← bound)
    if ← atBlockLine indent then
      let joint :=
        if fold && stop == ['\n'] && !further && !isFurther (← next) then
          if after.isEmpty then [' '] else []
        else stop
      let (more, last) ← blockLines fold indent n after
      return (breaks.flatten ++ line ++ joint ++ more, last)
    else return (breaks.flatten ++ line, stop, after)

/-- A scalar that is a block of lines, after its mark. It is indented at least to the margin. -/
def block (fold : Bool) (margin : Nat) : Scan String := do
  let (chomping, step) ← blockHead
  require (isSpaceOrEnd (← next))
  restOfLine
  let least := max margin 1
  let (breaks, indent) ← match step with
    | none => do
      let (breaks, furthest) ← leadingBreaks (← bound) 0
      pure (breaks, max least furthest)
    | some k => do
      let indent := least + k - 1
      pure (← blockBreaks indent (← bound), indent)
  let (text, stop, after) ←
    if ← atBlockLine indent then blockLines fold indent (← bound) breaks else pure ([], [], breaks)
  return String.ofList (match chomping with
    | .strip => text
    | .clip => text ++ stop
    | .keep => text ++ stop ++ after.flatten)

end SourceChange.Yaml
