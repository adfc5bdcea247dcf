import SourceChange.Failure
import SourceChange.Language
import SourceChange.Syntax.Cursor

/-!
The syntax tree of one version of a file, and handles on its nodes.

A `Tree` pairs a text with what was read from it. Trees are never changed: a changed text is read into
a new tree with a new version. A `Handle` names a node by version, span and kind; `Tree.resolve` finds
the node again, in the tree of that version only.
-/

namespace SourceChange.Source

open Syntax

/-! ### Byte offsets in texts

Spans and edits count the bytes of the UTF-8 encoding. The functions here cut a text, given as a list
of characters, at byte offsets, and tell on which line and in which column an offset lies.
-/

/-- What is left of a text after the first `n` bytes. -/
def dropBytes : Nat → List Char → List Char
  | _, [] => []
  | n, c :: cs => if n = 0 then c :: cs else dropBytes (n - c.utf8Size) cs

/-- The characters that lie entirely within the first `n` bytes. -/
def takeBytes : Nat → List Char → List Char
  | _, [] => []
  | n, c :: cs => if c.utf8Size ≤ n then c :: takeBytes (n - c.utf8Size) cs else []

/-- The characters between two byte offsets. -/
def sliceBytes (start stop : Nat) (cs : List Char) : List Char :=
  takeBytes (stop - start) (dropBytes start cs)

/-- A text up to and including its last line feed. -/
def wholeLines (cs : List Char) : List Char := (cs.reverse.dropWhile (· != '\n')).reverse

/-- The byte offset of the start of the line that contains `offset`. -/
def lineStart (offset : Nat) (cs : List Char) : Nat := byteSize (wholeLines (takeBytes offset cs))

/-- The line and the column of a byte offset, both counted from one. -/
def lineColumn (offset : Nat) (cs : List Char) : Nat × Nat :=
  ((takeBytes offset cs).count '\n' + 1, offset - lineStart offset cs + 1)

/-- The spaces and tabs at the start of the line that contains `offset`. -/
def indentAt (offset : Nat) (cs : List Char) : List Char :=
  (dropBytes (lineStart offset cs) cs).takeWhile fun c => c == ' ' || c == '\t'

/-- Blank characters of ASCII. -/
def isAsciiBlank (c : Char) : Bool := c == ' ' || (0x09 ≤ c.toNat && c.toNat ≤ 0x0D)

/-- Whether only blanks precede `offset` on its line. An offset within a character has part of that
character before it. -/
def startsLine (offset : Nat) (cs : List Char) : Bool :=
  let start := lineStart offset cs
  let front := sliceBytes start offset cs
  front.all isAsciiBlank && start + byteSize front == min offset (byteSize cs)

/-! ### Trees -/

/-- What was read from a text. -/
inductive Content where
  /-- Plain text is not read further. -/
  | plain
  /-- The text has a syntax error. -/
  | broken
  | parsed (root : Node)

/-- One version of a file. -/
structure Tree where
  version : Nat
  language : Language
  chars : List Char
  content : Content

/-- Names a node of one tree. -/
structure Handle where
  version : Nat
  span : Span
  kind : String
  deriving DecidableEq, Repr

namespace Tree

/-- Reads a text. -/
def build (version : Nat) (language : Language) (chars : List Char) : Tree :=
  ⟨version, language, chars,
    match language.grammar? with
    | none => .plain
    | some g =>
      match g.parse? chars with
      | some root => .parsed root
      | none => .broken⟩

/-- The text of a tree. -/
def text (t : Tree) : String := String.ofList t.chars

/-- Whether the text has a syntax error. -/
def hasErrors (t : Tree) : Bool :=
  match t.content with
  | .broken => true
  | _ => false

/-- The root of the tree. -/
def root (t : Tree) : Except Failure Node :=
  match t.content with
  | .parsed root => .ok root
  | .broken => .error .syntaxError
  | .plain => .error (.noTree t.language.name)

/-- The root, or an empty program where nothing was read. -/
def rootD (t : Tree) : Node :=
  match t.content with
  | .parsed root => root
  | _ => .mk Construct.program none ⟨0, byteSize t.chars⟩ []

/-- The text between two byte offsets. -/
def slice (t : Tree) (start stop : Nat) : String := String.ofList (sliceBytes start stop t.chars)

/-- The text that a node covers. -/
def nodeText (t : Tree) (n : Node) : String := t.slice n.start n.stop

/-- The line and the column of a byte offset. -/
def lineColumn (t : Tree) (offset : Nat) : Nat × Nat := Source.lineColumn offset t.chars

/-- The line of a byte offset. -/
def line (t : Tree) (offset : Nat) : Nat := (t.lineColumn offset).1

/-- The indentation of the line that contains an offset. -/
def indentAt (t : Tree) (offset : Nat) : String := String.ofList (Source.indentAt offset t.chars)

/-- Whether only blanks precede an offset on its line. -/
def startsLine (t : Tree) (offset : Nat) : Bool := Source.startsLine offset t.chars

/-- The handle of a node. -/
def handle (t : Tree) (n : Node) : Handle := ⟨t.version, n.span, n.kind.name⟩

/-- The first node of a handle's kind among the smallest ones with its span, given the way up from
the smallest node. -/
def findOn (h : Handle) : List Node → Option Node.Visit
  | [] => none
  | n :: above =>
    if n.span == h.span then
      if n.kind.name == h.kind then some ⟨n, above⟩ else findOn h above
    else none

/-- The node that a handle names, with its ancestors, nearest first. -/
def resolveVisit (t : Tree) (h : Handle) : Except Failure Node.Visit :=
  if h.version != t.version then .error (.staleHandle h.kind h.version t.version)
  else do
    let root ← t.root
    let path := root.cover h.span
    match findOn h path with
    | some v => .ok v
    | none => .error (.noNode h.kind h.span.start h.span.stop)

/-- The node that a handle names. -/
def resolve (t : Tree) (h : Handle) : Except Failure Node := do
  let v ← t.resolveVisit h
  return v.node

/-- The text of a string literal without its quotes. -/
def unquote (s : String) : String :=
  match s.toList with
  | q :: rest =>
    if ['\x27', '\x22', '\x60'].contains q && !rest.isEmpty && rest.getLast? == some q then
      String.ofList rest.dropLast
    else s
  | [] => s

/-- The value of a string literal, as it is written. -/
def stringValue (t : Tree) (n : Node) : String := unquote (t.nodeText n)

/-- The text of the child in a role. -/
def roleText? (t : Tree) (n : Node) (r : Role) : Option String := (n.child? r).map t.nodeText

end Tree

end SourceChange.Source
