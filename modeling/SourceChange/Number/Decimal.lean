import SourceChange.Number.Binary64

/-!
Decimal texts of floating-point numbers: the fewest digits that read back as the same number, and a
fixed number of places.
-/

namespace SourceChange

namespace Binary64

/-- Twice the bounds, over a common denominator, between which everything reads back as `m · 2 ^ e`:
`(low, value, high, den)`. Below a power of two the numbers lie twice as dense. -/
def neighbourhood (m : Nat) (e : Int) : Nat × Nat × Nat × Nat :=
  let below := if m == twoPow 52 && -1074 < e then 1 else 2
  let k : Nat := if 0 ≤ e then twoPow e.toNat else 1
  let den : Nat := 4 * (if 0 ≤ e then 1 else twoPow (-e).toNat)
  ((4 * m - below) * k, 4 * m * k, (4 * m + 2) * k, den)

/-- The decimal exponent `p` with `10 ^ (p - 1) ≤ num / den < 10 ^ p`, by search from `guess`. -/
def pointFor (num den : Nat) : Nat → Int → Int
  | 0, p => p
  | n + 1, p =>
    let scale (q : Int) : Nat × Nat :=
      if 0 ≤ q then (num, den * tenPow q.toNat) else (num * tenPow (-q).toNat, den)
    let (a, b) := scale p
    if b ≤ a then pointFor num den n (p + 1)
    else
      let (a, b) := scale (p - 1)
      if a < b then pointFor num den n (p - 1) else p

/-- The digits, as a whole number, and the place of the point of the nearest decimal with `n` digits
that lies in the neighbourhood, if there is one. -/
def decimalWith? (m : Nat) (e : Int) (p : Int) (n : Nat) : Option (Nat × Int) :=
  let (low, value, high, den) := neighbourhood m e
  let g : Int := p - n
  -- the grid `10 ^ g`, as a factor on either side
  let (up, down) : Nat × Nat := if 0 ≤ g then (1, tenPow g.toNat) else (tenPow (-g).toNat, 1)
  let d := value * up / (den * down)
  let inside (x : Nat) : Bool :=
    let y := x * den * down
    if m % 2 == 0 then low * up ≤ y && y ≤ high * up else low * up < y && y < high * up
  let off (x : Nat) : Nat :=
    let y := x * den * down
    if y ≤ value * up then value * up - y else y - value * up
  let better := off (d + 1) < off d || (off (d + 1) == off d && d % 2 == 1)
  match inside d && 0 < d, inside (d + 1) with
  | true, true => some (if better then d + 1 else d, g)
  | true, false => some (d, g)
  | false, true => some (d + 1, g)
  | false, false => none

/-- The first of the given digit counts that suffices. -/
def decimalFrom (m : Nat) (e : Int) (p : Int) : Nat → Nat → Nat × Int
  | 0, _ => (0, 0)
  | k + 1, n =>
    match decimalWith? m e p n with
    | some x => x
    | none => decimalFrom m e p k (n + 1)

/-- A decimal without zeros at its end. -/
def withoutZeros : Nat → Nat → Int → Nat × Int
  | 0, d, g => (d, g)
  | k + 1, d, g => if d % 10 == 0 && d != 0 then withoutZeros k (d / 10) (g + 1) else (d, g)

/-- The shortest decimal `d · 10 ^ g` that reads back as `m · 2 ^ e`; the nearest one of that length. -/
def shortest (m : Nat) (e : Int) : Nat × Int :=
  let (_, value, _, den) := neighbourhood m e
  let p := pointFor value den 800 ((((value.log2 : Int) - (den.log2 : Int)) * 30103) / 100000)
  let (d, g) := decimalFrom m e p 17 1
  withoutZeros 20 d g

/-- The digits of a decimal with a point and, for very large and very small values, an exponent.
Values from `10 ^ -4` up to `10 ^ 16` are written without one. -/
def decimalText (d : Nat) (g : Int) : List Char :=
  let ds := Nat.toDigits 10 d
  let n := ds.length
  let point : Int := n + g
  if -4 < point && point ≤ 16 then
    if point ≤ 0 then ['0', '.'] ++ List.replicate (-point).toNat '0' ++ ds
    else if n ≤ point.toNat then ds ++ List.replicate (point.toNat - n) '0' ++ ['.', '0']
    else ds.take point.toNat ++ '.' :: ds.drop point.toNat
  else
    let x := point - 1
    let digits := Nat.toDigits 10 x.natAbs
    let digits := if digits.length < 2 then '0' :: digits else digits
    let tail := if n ≤ 1 then [] else '.' :: ds.drop 1
    ds.take 1 ++ tail ++ 'e' :: (if x < 0 then '-' else '+') :: digits

/-- The text of a number, with the given spellings of the values that have no digits. -/
def textWith (infinity noNumber : String) : Binary64 → String
  | nan => noNumber
  | infinite a => if a then "-" ++ infinity else infinity
  | finite a m e =>
    let body :=
      if m == 0 then ['0', '.', '0']
      else
        let (d, g) := shortest m e
        decimalText d g
    String.ofList (if a then '-' :: body else body)

/-- The text of a number as messages show it. -/
def text : Binary64 → String := textWith "inf" "nan"

/-- The text of a number as source text. -/
def sourceText : Binary64 → String := textWith "Infinity" "NaN"

/-- A number with a fixed number of places, rounded to nearest, a tie to the even digit. -/
def fixedText (places : Nat) : Binary64 → String
  | nan => "nan"
  | infinite a => if a then "-inf" else "inf"
  | finite a m e =>
    let num := m * tenPow places
    let n := if 0 ≤ e then num * twoPow e.toNat else roundDiv num (twoPow (-e).toNat)
    let ds := Nat.toDigits 10 n
    let ds := List.replicate (places + 1 - ds.length) '0' ++ ds
    let whole := ds.take (ds.length - places)
    let body := if places == 0 then whole else whole ++ '.' :: ds.drop (ds.length - places)
    String.ofList (if a then '-' :: body else body)

end Binary64

end SourceChange
