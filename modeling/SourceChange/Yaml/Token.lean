import SourceChange.Yaml.Written

/-!
The tokens of a YAML text.

Besides what is written there are tokens that the layout gives: where a list or a table starts and ends by
its indentation, and where the key of a member starts.
-/

namespace SourceChange.Yaml

/-- How the type of a value is written. -/
inductive TagText where
  /-- In full, or as a sign that the type is the usual one. -/
  | whole (text : String)
  /-- A short form for the start, and the end. -/
  | short (handle ending : String)
  deriving DecidableEq, Repr

/-- What a line that starts with a percent sign says. -/
inductive Directive where
  | version (major minor : Nat)
  /-- A short form, and the start of a type that it stands for. -/
  | handle (name start : String)
  | unknown
  deriving DecidableEq, Repr

/-- A token. -/
inductive Token where
  | directive (d : Directive)
  | documentStart
  | documentEnd
  | listStart
  | tableStart
  /-- The end of a list or table by its indentation. -/
  | blockEnd
  | flowListStart
  | flowListEnd
  | flowTableStart
  | flowTableEnd
  /-- The dash before an item. -/
  | item
  /-- The comma between brackets. -/
  | comma
  | key
  | value
  | anchor (name : String)
  | reference (name : String)
  | tag (t : TagText)
  | scalar (text : String) (isPlain : Bool)
  deriving DecidableEq, Repr

open Scan

/-- The name of an anchor or of a reference to one, after its mark. -/
def anchorName : Scan String := do
  skip 1
  let name ← takeWhile isNameChar
  require !name.isEmpty
  let ends (c : Char) : Bool := isGap c || "?:,]\x7d%@\x60".toList.contains c
  require (((← next).map ends).getD true)
  return String.ofList name

/-- Characters of the names of types. -/
def isTagChar (c : Char) : Bool := c.isAlphanum || "-;/?:@&=+$,_.!~*'()[]%".toList.contains c

/-- Bytes that are written with percent signs, and what follows them. -/
def percentBytes? : List Char → Option (List UInt8 × List Char)
  | '%' :: a :: b :: r =>
    if Number.isHexDigit a && Number.isHexDigit b then
      (percentBytes? r).map fun (bs, s) => (UInt8.ofNat (Number.ofBase 16 [a, b]) :: bs, s)
    else none
  | '%' :: _ => none
  | cs => some ([], cs)

/-- The name of a type with the characters that percent signs stand for. -/
def decodeTag? : Nat → List Char → Option (List Char)
  | 0, _ => none
  | _ + 1, [] => some []
  | n + 1, c :: cs =>
    if c == '%' then
      match percentBytes? (c :: cs) with
      | none => none
      | some (bs, r) =>
        match String.fromUTF8? ⟨bs.toArray⟩ with
        | none => none
        | some s => (decodeTag? n r).map (s.toList ++ ·)
    else (decodeTag? n cs).map (c :: ·)

/-- A part of the name of a type. -/
def tagPart : Scan String := do
  let run ← takeWhile isTagChar
  require !run.isEmpty
  match decodeTag? (run.length + 1) run with
  | some name => return String.ofList name
  | none => malformed

/-- A short form for the start of a type. -/
def tagHandle : Scan String := do
  require ((← next) == some '!')
  let rest := (← get).rest.drop 1
  if rest.head? == some ' ' then
    skip 1
    return "!"
  let name := rest.takeWhile isNameChar
  require ((rest.dropWhile isNameChar).head? == some '!')
  skip (name.length + 2)
  return String.ofList ('!' :: name ++ ['!'])

/-- The type of a value. -/
def tagText : Scan TagText := do
  let rest := (← get).rest.drop 1
  let t ← match rest.head? with
    | some '<' => do
      skip 2
      let name ← tagPart
      require ((← next) == some '>')
      skip 1
      pure (TagText.whole name)
    | c => do
      if isOpenPlace c then
        skip 1
        pure (TagText.whole "!")
      else if (rest.takeWhile fun c => !(c == ' ' || isBreak c)).contains '!' then
        let handle ← tagHandle
        pure (TagText.short handle (← tagPart))
      else
        skip 1
        pure (TagText.short "!" (← tagPart))
  require (isSpaceOrEnd (← next))
  return t

/-- A number of a version. -/
def versionNumber : Scan Nat := do
  let ds ← takeWhile Char.isDigit
  require !ds.isEmpty
  return Number.ofBase 10 ds

/-- What a line that starts with a percent sign says. -/
def directive : Scan Directive := do
  skip 1
  let name ← takeWhile isNameChar
  require (!name.isEmpty && isSpaceOrEnd (← next))
  let d ← if name == "YAML".toList then do
      skipSpaces
      let major ← versionNumber
      require ((← next) == some '.')
      skip 1
      let minor ← versionNumber
      require (isSpaceOrEnd (← next))
      pure (Directive.version major minor)
    else if name == "TAG".toList then do
      skipSpaces
      let handle ← tagHandle
      require ((← next) == some ' ')
      skipSpaces
      let start ← tagPart
      require (isSpaceOrEnd (← next))
      pure (Directive.handle handle start)
    else do
      let _ ← takeWhile fun c => !isBreak c
      pure Directive.unknown
  restOfLine
  return d

end SourceChange.Yaml
