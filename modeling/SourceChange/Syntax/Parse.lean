import SourceChange.Syntax.Cursor

/-!
Parsers over a `Cursor`.

A parser either fails or yields a result and a later position. Alternatives are ordered: `p <|> q`
tries `q` from the same position if `p` fails.
-/

namespace SourceChange.Syntax

/-- A parser. -/
abbrev Parse := StateT Cursor Option

namespace Parse

/-- Runs a parser without moving on. -/
def ahead (p : Parse α) : Parse α := fun c => (p c).map fun (a, _) => (a, c)

/-- Succeeds, without moving on, exactly when `p` fails. -/
def notAhead (p : Parse α) : Parse Unit := fun c =>
  match p c with
  | some _ => none
  | none => some ((), c)

/-- Succeeds when the condition holds. -/
def require (b : Bool) : Parse Unit := if b then pure () else failure

/-- Reads `q` instead of `p` where `p` succeeds but something that follows it speaks against it. -/
def overruled (p : Parse α) (against : Parse Bool) (q : Parse α) : Parse α := fun c =>
  match p c with
  | none => none
  | some (a, c') =>
    match against c' with
    | some (true, _) => q c
    | _ => some (a, c')

/-- The nodes of `p`, or none. -/
def opt (p : Parse (List Node)) : Parse (List Node) := p <|> pure []

/-- The node of `p`, or none. -/
def opt1 (p : Parse Node) : Parse (List Node) := (do return [← p]) <|> pure []

/-- Repeats `p` while it succeeds and moves on, at most the given number of times. -/
def manyFrom (p : Parse (List Node)) : Nat → Parse (List Node)
  | 0 => pure []
  | n + 1 => fun c =>
    match p c with
    | some (xs, c') =>
      if c'.offset ≤ c.offset then some (xs, c')
      else (manyFrom p n c').map fun (ys, c'') => (xs ++ ys, c'')
    | none => some ([], c)

/-- Repeats `p` as often as it succeeds. -/
def many (p : Parse (List Node)) : Parse (List Node) := fun c =>
  manyFrom p (c.size + 1) c

/-- Repeats `p`, which yields one node, as often as it succeeds. -/
def many1 (p : Parse Node) : Parse (List Node) := many do return [← p]

/-- Extends a result by `step` as often as that succeeds, at most the given number of times. -/
def extendFrom (step : α → Parse α) : Nat → α → Parse α
  | 0, a => pure a
  | n + 1, a => fun c =>
    match step a c with
    | some (b, c') => extendFrom step n b c'
    | none => some (a, c)

/-- Extends a result by `step` as often as that succeeds. -/
def extend (step : α → Parse α) (a : α) : Parse α := fun c =>
  extendFrom step (c.size + 1) a c

/-- Runs `p` in other surroundings. -/
def within (f : Mode → Mode) (p : Parse α) : Parse α := fun c =>
  (p { c with mode := f c.mode }).map fun (a, c') => (a, { c' with mode := c.mode })

/-- Runs `p` within brackets. -/
def bracketed (p : Parse α) : Parse α :=
  within (fun m => { Mode.brackets with simplePatterns := m.simplePatterns }) p

/-- Runs `p` where a line break ends nothing. -/
def unbroken (p : Parse α) : Parse α := within (fun m => { m with breaks := false }) p

/-- Runs `p` among statements or members. -/
def blocked (p : Parse α) : Parse α := within (fun _ => .block) p

/-- Fails where a line break ends the statement. Elsewhere, what has been read could still be
complete. -/
def sameStatement (rule : Cursor.BreakRule) : Parse Unit := fun c =>
  if c.mustStop rule then none
  else some ((), { c with complete := c.complete || rule.operators || c.mode.breaks })

/-- The text from here on, after blank space and comments. -/
def upcoming : Parse (List Char) := fun c => some (c.skip.rest, c)

/-- Notes that what has been read could be complete. -/
def complete : Parse Unit := fun c => some ((), { c with complete := true })

/-- Notes that a name could come next. -/
def fullWords : Parse Unit := fun c => some ((), { c with fullWords := true })

/-- Runs `p`, after which what has been read could be complete just as it could be before. -/
def asComplete (p : Parse α) : Parse α := fun c =>
  (p c).map fun (a, c') => (a, { c' with complete := c.complete })

/-- A comment in the style of HTML, where other comments are text. -/
def htmlComment : Parse Unit := fun c =>
  let r := c.rest.dropWhile isBlank
  (htmlComment? r).map fun (t, r') =>
    ((), (c.past (c.rest.takeWhile isBlank) r).pastExtra .htmlComment t r')

/-- Passes comments that no blank space separates. -/
def directComments : Parse Unit := fun c => some ((), c.skipDirect)

/-- The leaf that `read` finds at the very position of the cursor. -/
def leafHere (kind : Kind) (read : List Char → Option (List Char × List Char)) : Parse Node :=
  fun c =>
    match read c.rest with
    | some (t, r) =>
      let c' := c.past t r
      some (.mk kind none ⟨c.offset, c'.offset⟩ [],
        { c' with last := c'.offset, complete := false, fullWords := false })
    | none => none

/-- The leaf that `read` finds after blank space and comments. -/
def leaf (kind : Kind) (read : List Char → Option (List Char × List Char)) : Parse Node :=
  fun c => leafHere kind read c.skip

/-- Reads exactly the characters `t`. -/
def exactly (t : List Char) (cs : List Char) : Option (List Char × List Char) :=
  (afterPrefix? t cs).map (t, ·)

/-- A punctuation mark. -/
def mark (t : String) : Parse Node := leaf (.token t) (exactly t.toList)

/-- A punctuation mark at the very position of the cursor. -/
def markHere (t : String) : Parse Node := leafHere (.token t) (exactly t.toList)

/-- A punctuation mark that none of the given characters follows. -/
def markBefore (t : String) (stops : List Char) : Parse Node :=
  leaf (.token t) fun cs =>
    match afterPrefix? t.toList cs with
    | some r => if (r.head?.map stops.contains).getD false then none else some (t.toList, r)
    | none => none

/-- The sign of an initial value or a default. -/
def assignMark : Parse Node := markBefore "=" ['=', '>']

/-- A keyword: the name spelled exactly so. -/
def keyword (w : String) : Parse Node :=
  leaf (.token w) fun cs => (name? cs).filter fun (t, _) => t == w.toList

/-- One of several keywords. -/
def oneKeyword (ws : List String) : Parse Node := fun c =>
  match name? c.skip.rest with
  | some (t, _) =>
    match ws.find? (·.toList == t) with
    | some w => keyword w c
    | none => none
  | none => none

/-- Any name, as a node of the given kind. -/
def anyName (kind : Kind) : Parse Node := leaf kind name?

/-- Any name but the given words, as a node of the given kind. -/
def nameBut (ws : List String) (kind : Kind) : Parse Node :=
  leaf kind fun cs => (name? cs).filter fun (t, _) => !ws.any (·.toList == t)

/-- A word that joins two operands. No name can stand there, so the word need not end where a name
would end. -/
def joint (w : String) : Parse Node := leaf (.token w) (exactly w.toList)

/-- The name that comes next, if there is one. -/
def nextName : Parse (Option String) := fun c =>
  some ((name? c.skip.rest).map (String.ofList ·.1), c)

/-- Succeeds when the text from here on, after blank space and comments, starts with one of the
given characters. -/
def nextIn (cs : List Char) : Parse Unit := fun c =>
  if (c.skip.rest.head?.map cs.contains).getD false then some ((), c) else none

/-- Tells whether `p` succeeds, without moving on. -/
def isAhead (p : Parse α) : Parse Bool := fun c => some ((p c).isSome, c)

/-- Puts a node into a role. -/
def asRole (r : Role) (p : Parse Node) : Parse Node := do return (← p).withRole r

/-- The node over `parts`; it ends where the last token ended. -/
def node (kind : Kind) (parts : List Node) : Parse Node := fun c =>
  some (.mk kind none ⟨(parts.head?.map Node.start).getD c.last, c.last⟩ parts, c)

/-- Items separated by commas, where items may be left out. -/
def commaHoles (item : Parse Node) : Parse (List Node) := do
  let first ← opt1 item
  let more ← many do
    let comma ← mark ","
    return comma :: (← opt1 item)
  return first ++ more

/-- One or more items separated by commas. -/
def commaItems (item : Parse (List Node)) : Parse (List Node) := do
  let first ← item
  let more ← many do
    let comma ← mark ","
    return comma :: (← item)
  return first ++ more

/-- Items separated by commas; a last comma may follow them. -/
def commaList (item : Parse Node) : Parse (List Node) := opt do
  let items ← commaItems do return [← item]
  return items ++ (← opt1 (mark ","))

/-- Items separated by commas; a last comma may follow them, or stand alone. -/
def looseList (item : Parse Node) : Parse (List Node) := do
  let items ← opt (commaItems do return [← item])
  return items ++ (← opt1 (mark ","))

/-- The end of a statement: a semicolon, or a line break that stands for one. -/
def semicolon (rule : Cursor.BreakRule) : Parse (List Node) := fun c =>
  match c.lineEnd? rule with
  | some c' => some ([], { c' with complete := false })
  | none => (mark ";" { c with complete := true }).map fun (n, c') => ([n], c')

/-- A line end after a closing brace, which is optional but takes the comments before it along. -/
def trailing (rule : Cursor.BreakRule) : Parse Unit := fun c =>
  match c.lineEnd? rule with
  | some c' => some ((), { c' with complete := false })
  | none => some ((), { c with complete := true })

end Parse

end SourceChange.Syntax
