import SourceChange.Number.Binary64
import SourceChange.Text.Basic
import SourceChange.Text.Case

/-!
Reading numbers that people write: blanks around them, a sign, single underscores between digits, and
the digits of any script.
-/

namespace SourceChange.Number

/-- Cuts a sign off; the flag says whether it was a minus. -/
def cutSign : List Char → Bool × List Char
  | '-' :: cs => (true, cs)
  | '+' :: cs => (false, cs)
  | cs => (false, cs)

/-- A text without the underscores that stand between two digits; the flag says whether a digit precedes
the text. -/
def joinDigits (afterDigit : Bool) : List Char → List Char
  | [] => []
  | c :: cs =>
    let beforeDigit := (cs.head?.bind Text.digitValue?).isSome
    if c == '_' && afterDigit && beforeDigit then joinDigits false cs
    else c :: joinDigits (Text.digitValue? c).isSome cs

/-- The digits at the front of a text, and what follows them. -/
def digits : List Char → List Nat × List Char
  | [] => ([], [])
  | c :: cs =>
    match Text.digitValue? c with
    | none => ([], c :: cs)
    | some d =>
      let (ds, rest) := digits cs
      (d :: ds, rest)

/-- The value of digits. -/
def ofDigits (ds : List Nat) : Nat := ds.foldl (fun n d => n * 10 + d) 0

/-- Digits of base sixteen. -/
def isHexDigit (c : Char) : Bool := c.isDigit || ('a' ≤ c && c ≤ 'f') || ('A' ≤ c && c ≤ 'F')

/-- The value of ASCII digits in a base; letters go on after nine. -/
def ofBase (base : Nat) (cs : List Char) : Nat :=
  cs.foldl (fun n c =>
    let d := if c.isDigit then c.toNat - 0x30 else if c.isUpper then c.toNat - 0x37 else c.toNat - 0x57
    n * base + d) 0

/-- A number with its sign. -/
def signed (negative : Bool) (n : Nat) : Int := if negative then -n else n

/-- A whole number. -/
def readInt? (s : String) : Option Int :=
  let (negative, cs) := cutSign (joinDigits false (Text.strip s.toList))
  match digits cs with
  | ([], _) => none
  | (ds, []) => some (signed negative (ofDigits ds))
  | _ => none

/-- The digits after a point, and what follows them. -/
def fraction : List Char → List Nat × List Char
  | '.' :: cs => digits cs
  | cs => ([], cs)

/-- An exponent that ends the text; a text that is empty has exponent zero. -/
def exponent? : List Char → Option Int
  | [] => some 0
  | c :: cs =>
    if c == 'e' || c == 'E' then
      let (negative, rest) := cutSign cs
      match digits rest with
      | ([], _) => none
      | (ds, []) => some (signed negative (ofDigits ds))
      | _ => none
    else none

/-- A decimal fraction without its sign. -/
def decimal? (negative : Bool) (cs : List Char) : Option Binary64 := do
  let (whole, r) := digits cs
  let (places, r) := fraction r
  if whole.isEmpty && places.isEmpty then none
  let e ← exponent? r
  return Binary64.ofDecimal negative (ofDigits (whole ++ places)) (e - places.length)

/-- A number, which may be infinite or no number at all. -/
def readBinary? (s : String) : Option Binary64 :=
  let (negative, cs) := cutSign (joinDigits false (Text.strip s.toList))
  let word := Text.lower (String.ofList cs)
  if word == "inf" || word == "infinity" then some (.infinite negative)
  else if word == "nan" then some .nan
  else decimal? negative cs

end SourceChange.Number
