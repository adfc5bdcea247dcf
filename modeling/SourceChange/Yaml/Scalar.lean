import SourceChange.Datum.Basic
import SourceChange.Yaml.Cursor
import SourceChange.Yaml.Tag

/-!
What the text of a scalar stands for, given its type.
-/

/-! ### Bytes that are written with letters, digits and two signs, four for three bytes -/

namespace SourceChange.Text

/-- The value of a digit to the base sixty-four. -/
def digit64? (c : Char) : Option Nat :=
  if c.isUpper then some (c.toNat - 0x41)
  else if c.isLower then some (c.toNat - 0x61 + 26)
  else if c.isDigit then some (c.toNat - 0x30 + 52)
  else if c == '+' then some 62
  else if c == '/' then some 63
  else none

/-- The three bytes of a group of four digits. -/
def threeBytes (w x y z : Nat) : List UInt8 :=
  let n := ((w * 64 + x) * 64 + y) * 64 + z
  [UInt8.ofNat (n / 65536), UInt8.ofNat (n / 256 % 256), UInt8.ofNat (n % 256)]

/-- Bytes from a text on. `held` holds the digits of the group so far, last first, and `pads` counts the
equals signs after them. -/
def base64From? (held : List Nat) (pads : Nat) : List Char → Option (List UInt8)
  | [] => if held.isEmpty then some [] else none
  | c :: cs =>
    if c == '=' then
      match held with
      | [y, x, w] => some ((threeBytes w x y 0).take 2)
      | [x, w] => if 1 ≤ pads then some ((threeBytes w x 0 0).take 1) else base64From? held (pads + 1) cs
      | _ => base64From? held pads cs
    else
      match digit64? c with
      | none => base64From? held pads cs
      | some d =>
        match held with
        | [y, x, w] => (base64From? [] 0 cs).map (threeBytes w x y d ++ ·)
        | _ => base64From? (d :: held) 0 cs

/-- The bytes of a text to the base sixty-four. Equals signs fill up the last group and end the text; other
characters of plain ASCII are passed over. -/
def base64? (cs : List Char) : Option (List UInt8) :=
  if cs.all fun c => c.toNat < 0x80 then base64From? [] 0 cs else none

end SourceChange.Text

/-! ### Scalars -/

namespace SourceChange.Yaml

/-- The value of a digit in bases up to 36. -/
def digitIn? (base : Nat) (c : Char) : Option Nat :=
  let d := match Text.digitValue? c with
    | some d => some d
    | none =>
      if 'a' ≤ c && c ≤ 'z' then some (c.toNat - 0x61 + 10)
      else if 'A' ≤ c && c ≤ 'Z' then some (c.toNat - 0x41 + 10)
      else none
  d.filter (· < base)

/-- The letter that marks a base. -/
def baseMark? : Nat → Option Char
  | 2 => some 'b'
  | 8 => some 'o'
  | 16 => some 'x'
  | _ => none

/-- A text without the mark of a base at its start. -/
def dropBaseMark (base : Nat) (cs : List Char) : List Char :=
  match cs with
  | '0' :: c :: r => if (baseMark? base).any (fun m => c == m || c == m.toUpper) then r else cs
  | _ => cs

/-- A whole number in a base, with blanks around it and a sign. -/
def whole (base : Nat) (cs : List Char) : Except Fault Int :=
  let (negative, digits) := Number.cutSign (Text.strip cs)
  match (dropBaseMark base digits).mapM (digitIn? base) with
  | some (d :: ds) => .ok (Number.signed negative ((d :: ds).foldl (fun n d => n * base + d) 0))
  | _ => .error (.notWhole (String.ofList cs) base)

/-- The value of places to the base sixty, last place first. -/
def sixties (places : List Int) : Int := places.foldr (fun p n => p + n * 60) 0

/-- A whole number. -/
def intOf (text : String) : Except Fault Int := do
  let cs := text.toList.filter (· != '_')
  if cs.isEmpty then throw .emptyNumber
  let (negative, cs) := Number.cutSign cs
  let n ← match cs with
    | ['0'] => pure 0
    | '0' :: 'b' :: r => whole 2 r
    | '0' :: 'x' :: r => whole 16 r
    | '0' :: r => whole 8 ('0' :: r)
    | [] => throw .emptyNumber
    | cs =>
      if cs.contains ':' then do
        let places ← (Text.splitOnChar ':' cs).mapM (whole 10)
        pure (sixties places.reverse)
      else whole 10 cs
  return if negative then -n else n

/-- A fraction, with blanks around it and a sign. -/
def fraction (cs : List Char) : Except Fault Binary64 :=
  match Number.readBinary? (String.ofList cs) with
  | some x => .ok x
  | none => .error (.notNumber (String.ofList cs))

/-- The sum of places to the base sixty, last place first. -/
def sixtiethsFrom (unit : Nat) (sum : Binary64) : List Binary64 → Binary64
  | [] => sum
  | p :: ps => sixtiethsFrom (unit * 60) (sum.add (p.times unit)) ps

/-- A number that may have a fraction. -/
def floatOf (text : String) : Except Fault Binary64 := do
  let cs := (Text.lower (String.ofList (text.toList.filter (· != '_')))).toList
  if cs.isEmpty then throw .emptyNumber
  let (negative, cs) := Number.cutSign cs
  let x ← if cs == ".inf".toList then pure (.infinite false)
    else if cs == ".nan".toList then pure .nan
    else if cs.contains ':' then do
      let places ← (Text.splitOnChar ':' cs).mapM fraction
      pure (sixtiethsFrom 1 .zero places.reverse)
    else fraction cs
  return if negative then x.neg else x

/-- A truth value, in any case. -/
def boolOf (text : String) : Except Fault Bool :=
  let word := Text.lower text
  if trueWords.contains word then .ok true
  else if falseWords.contains word then .ok false
  else .error (.notTruth word)

/-- The microseconds of a fraction of a second; further digits are dropped. -/
def microsOf (places : List Char) : Nat :=
  let ds := places.take 6
  Number.ofBase 10 (ds ++ List.replicate (6 - ds.length) '0')

/-- A moment from the numbers of its text. -/
def momentFrom (t : MomentText) : Except MomentFault Moment := do
  match t.time with
  | none => return .day (← Day.of? t.year t.month t.day)
  | some (hour, minute, second) =>
    let offset ← t.offset.mapM Moment.checkOffset
    let d ← Day.of? t.year t.month t.day
    return .full d (← Clock.of? hour minute second (microsOf t.places)) offset

/-- A day, or a day and a time. -/
def momentOf (text : String) : Except Fault Moment :=
  match momentText? true text.toList with
  | none => .error .notMoment
  | some t => (momentFrom t).mapError .badMoment

/-- Bytes that are written to the base sixty-four. -/
def bytesOf (text : String) : Except Fault (List UInt8) :=
  match Text.base64? text.toList with
  | some bs => .ok bs
  | none => .error .malformed

/-- What a text stands for as a scalar of a type. Collections are no scalars, and of unknown types there
are none. -/
def scalarValue (tag : Tag) (text : String) : Except Fault Datum :=
  match tag with
  | .null => .ok .null
  | .bool => (boolOf text).map .bool
  | .int => (intOf text).map .int
  | .float => (floatOf text).map .float
  | .binary => (bytesOf text).map .bytes
  | .moment => (momentOf text).map .moment
  | .string => .ok (.string text)
  | _ => .error .malformed

end SourceChange.Yaml
