import SourceChange.Yaml.Token

/-!
The tokens of a whole text, with those that the layout gives.

Outside brackets a list or a table starts where its first item or key stands further to the right than what
it is in, and ends where a line stands further to the left. A key is known for one only by the colon after
it, on the same line and not too far away: `Candidate` holds where the tokens of a key would have to be put
in.
-/

namespace SourceChange.Yaml

/-- A place where a key may have started. -/
structure Candidate where
  /-- How many tokens precede. -/
  position : Nat
  /-- Whether nothing but a key can stand here. -/
  isRequired : Bool
  index : Nat
  line : Nat
  column : Nat
  deriving Repr

/-- A text while its tokens are taken off. -/
structure Layout where
  cursor : Cursor
  tokens : Array Token
  /-- The first column that lies within the innermost list or table. -/
  margin : Nat
  /-- The margins further out. -/
  outer : List Nat
  /-- How many brackets are open. -/
  depth : Nat
  /-- Whether a key can start here. -/
  allowsKey : Bool
  /-- The candidates by the number of brackets around them. -/
  candidates : List (Nat × Candidate)

/-- Taking tokens off a text. -/
abbrev Laying := StateT Layout (Except Fault)

namespace Layout

/-- The start of a text. -/
def start (text : List Char) : Layout := ⟨.start text, #[], 0, [], 0, true, []⟩

/-- How many characters a key can have. -/
def maxKeyLength : Nat := 1024

/-- The text is not of the right form. -/
def malformed {α : Type} : Laying α := throw .malformed

/-- The text has to be of the right form. -/
def require (ok : Bool) : Laying Unit := if ok then pure () else malformed

/-- Reads from the cursor on. -/
def scan {α : Type} (s : Scan α) : Laying α := do
  let l ← get
  let (x, c) ← s.run l.cursor
  set { l with cursor := c }
  return x

/-- Puts a token at the end. -/
def push (t : Token) : Laying Unit := modify fun l => { l with tokens := l.tokens.push t }

/-- Says whether a key can start here. -/
def allowKey (b : Bool) : Laying Unit := modify fun l => { l with allowsKey := b }

/-- Drops the candidates that can be none any more. -/
def dropStale : Laying Unit := do
  let l ← get
  let isStale (k : Candidate) : Bool :=
    k.line != l.cursor.line || maxKeyLength < l.cursor.index - k.index
  require !(l.candidates.any fun (_, k) => isStale k && k.isRequired)
  set { l with candidates := l.candidates.filter fun (_, k) => !isStale k }

/-- Drops the candidate within the innermost brackets. -/
def dropCandidate : Laying Unit := do
  let l ← get
  match l.candidates.lookup l.depth with
  | none => pure ()
  | some k =>
    require !k.isRequired
    set { l with candidates := l.candidates.filter fun (d, _) => d != l.depth }

/-- Notes that a key may start here. -/
def saveCandidate : Laying Unit := do
  if (← get).allowsKey then
    dropCandidate
    modify fun l =>
      let c := l.cursor
      let k : Candidate :=
        ⟨l.tokens.size, l.depth == 0 && l.margin == c.column + 1, c.index, c.line, c.column⟩
      { l with candidates := (l.depth, k) :: l.candidates }

/-- Ends the lists and tables whose margins are beyond a column; `limit` is the column after it. -/
def unwindTo (limit : Nat) : Nat → List Nat → Laying Unit
  | margin, [] => modify fun l => { l with margin := margin, outer := [] }
  | margin, m :: ms => do
    if limit < margin then
      push .blockEnd
      unwindTo limit m ms
    else modify fun l => { l with margin := margin, outer := m :: ms }

/-- Ends the lists and tables that a line further to the left ends. Between brackets none does. -/
def unwind (limit : Nat) : Laying Unit := do
  let l ← get
  if l.depth == 0 then unwindTo limit l.margin l.outer

/-- Starts a list or a table at a column, unless one is open there; `start` is its token, put in at a
place. -/
def indentTo (column position : Nat) (start : Token) : Laying Unit := do
  let l ← get
  if l.margin ≤ column then
    set { l with
      margin := column + 1
      outer := l.margin :: l.outer
      tokens := l.tokens.insertIdxIfInBounds position start }

/-- Starts a list or a table here. -/
def indentHere (start : Token) : Laying Unit := do
  let l ← get
  indentTo l.cursor.column l.tokens.size start

/-- Takes a mark of the given length. -/
def mark (length : Nat) (t : Token) : Laying Unit := do
  scan (Scan.skip length)
  push t

/-- A mark between documents, or a directive: everything that is open ends. -/
def betweenDocuments : Laying Unit := do
  unwind 0
  dropCandidate
  allowKey false

/-- An opening bracket. -/
def openBracket (t : Token) : Laying Unit := do
  saveCandidate
  modify fun l => { l with depth := l.depth + 1 }
  allowKey true
  mark 1 t

/-- A closing bracket. -/
def closeBracket (t : Token) : Laying Unit := do
  dropCandidate
  require (0 < (← get).depth)
  modify fun l => { l with depth := l.depth - 1 }
  allowKey false
  mark 1 t

/-- A comma between brackets. -/
def comma : Laying Unit := do
  allowKey true
  dropCandidate
  mark 1 .comma

/-- The dash before an item. -/
def item : Laying Unit := do
  let l ← get
  if l.depth == 0 then
    require l.allowsKey
    indentHere .listStart
  allowKey true
  dropCandidate
  mark 1 .item

/-- The mark before a key. -/
def keyMark : Laying Unit := do
  let l ← get
  if l.depth == 0 then
    require l.allowsKey
    indentHere .tableStart
  allowKey (l.depth == 0)
  dropCandidate
  mark 1 .key

/-- The colon after a key. The candidate within the same brackets turns out to be the key. -/
def valueMark : Laying Unit := do
  let l ← get
  match l.candidates.lookup l.depth with
  | some k =>
    set { l with
      candidates := l.candidates.filter fun (d, _) => d != l.depth
      tokens := l.tokens.insertIdxIfInBounds k.position .key }
    if l.depth == 0 then indentTo k.column k.position .tableStart
    allowKey false
  | none =>
    if l.depth == 0 then
      require l.allowsKey
      indentHere .tableStart
    allowKey (l.depth == 0)
    dropCandidate
  mark 1 .value

/-- A token that a key can start with. -/
def content (s : Scan Token) : Laying Unit := do
  saveCandidate
  allowKey false
  push (← scan s)

/-- A scalar that is a block of lines. -/
def blockScalar (fold : Bool) : Laying Unit := do
  allowKey true
  dropCandidate
  let margin := (← get).margin
  scan (Scan.skip 1)
  push (.scalar (← scan (block fold margin)) false)

/-- A plain scalar. A key can start after it if a line ends there. -/
def plainScalar : Laying Unit := do
  saveCandidate
  let l ← get
  let (text, broken) ← scan (plain l.margin (0 < l.depth))
  allowKey broken
  push (.scalar text true)

/-- Moves to the next token. Where a line ends outside brackets, a key can start. -/
def toNext : Nat → Laying Unit
  | 0 => malformed
  | n + 1 => do
    scan Scan.skipSpaces
    scan Scan.skipComment
    let b ← scan Scan.lineBreak
    if !b.isEmpty then
      if (← get).depth == 0 then allowKey true
      toNext n

/-- Whether a plain scalar can start with a text. -/
def startsPlain (inFlow : Bool) : List Char → Bool
  | [] => false
  | c :: cs =>
    if c == '-' || (!inFlow && (c == '?' || c == ':')) then !isOpenPlace cs.head?
    else !(isGap c || "-?:,[]\x7b\x7d#&*!|>'\"%@\x60".toList.contains c)

/-- Takes the next token; says whether there was one. -/
def fetch : Laying Bool := do
  toNext ((← get).cursor.rest.length + 1)
  dropStale
  unwind ((← get).cursor.column + 1)
  let l ← get
  let isOpen := isOpenPlace (l.cursor.rest.drop 1).head?
  let inFlow := 0 < l.depth
  match l.cursor.rest with
  | [] =>
    unwind 0
    dropCandidate
    return false
  | c :: r =>
    if c == '%' && l.cursor.column == 0 then
      betweenDocuments
      push (.directive (← scan directive))
    else if l.cursor.column == 0 && l.cursor.atMark then
      betweenDocuments
      mark 3 (if c == '-' then .documentStart else .documentEnd)
    else if c == '[' then openBracket .flowListStart
    else if c == '\x7b' then openBracket .flowTableStart
    else if c == ']' then closeBracket .flowListEnd
    else if c == '\x7d' then closeBracket .flowTableEnd
    else if c == ',' then comma
    else if c == '-' && isOpen then item
    else if c == '?' && (inFlow || isOpen) then keyMark
    else if c == ':' && (inFlow || isOpen) then valueMark
    else if c == '*' then content do return .reference (← anchorName)
    else if c == '&' then content do return .anchor (← anchorName)
    else if c == '!' then content do return .tag (← tagText)
    else if c == '|' && !inFlow then blockScalar false
    else if c == '>' && !inFlow then blockScalar true
    else if c == '\x27' || c == '\x22' then content do return .scalar (← quoted) false
    else if startsPlain inFlow (c :: r) then plainScalar
    else malformed
    return true

/-- Takes all tokens. -/
def fetchAll : Nat → Laying Unit
  | 0 => malformed
  | n + 1 => do if ← fetch then fetchAll n

end Layout

/-- The tokens of a text. A byte order mark may start it. -/
def tokens (text : List Char) : Except Fault (List Token) := do
  if !text.all isAllowed then throw .malformed
  let c := Cursor.start text
  let c := if text.head? == some '\uFEFF' then c.step else c
  let (_, l) ← (Layout.fetchAll (text.length + 2)).run { Layout.start text with cursor := c }
  return l.tokens.toList

end SourceChange.Yaml
