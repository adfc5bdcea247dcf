/-!
Binary floating-point numbers of 64 bits, as exact values.

A finite number is `± m · 2 ^ e` with `m < 2 ^ 53` and `-1074 ≤ e`. Every operation computes the exact
rational result and rounds it once, to the nearest number, a tie to the even one.
-/

namespace SourceChange

/-- A floating-point number of 64 bits. -/
inductive Binary64 where
  | finite (negative : Bool) (m : Nat) (e : Int)
  | infinite (negative : Bool)
  | nan
  deriving DecidableEq, Repr

namespace Binary64

/-- Zero. -/
def zero : Binary64 := finite false 0 (-1074)

/-- A power of two. -/
def twoPow (n : Nat) : Nat := Nat.pow 2 n

/-- A power of ten. -/
def tenPow (n : Nat) : Nat := Nat.pow 10 n

/-- A quotient rounded to the nearest whole number, a tie to the even one. -/
def roundDiv (num den : Nat) : Nat :=
  let q := num / den
  let r := num % den
  if 2 * r < den then q else if den < 2 * r then q + 1 else if q % 2 == 0 then q else q + 1

/-- The numerator and denominator of `num / den · 2 ^ (-e)`. -/
def scaled (num den : Nat) (e : Int) : Nat × Nat :=
  if 0 ≤ e then (num, den * twoPow e.toNat) else (num * twoPow (-e).toNat, den)

/-- The exponent of the number nearest to `num / den`: the one that leaves 53 binary digits, unless the
value is too small for that. -/
def exponentFor (num den : Nat) : Int :=
  let guess : Int := (num.log2 : Int) - (den.log2 : Int) - 52
  let (n, d) := scaled num den guess
  let e := if n / d < twoPow 52 then guess - 1 else guess
  max e (-1074)

/-- The number nearest to `± num / den`. -/
def ofRatio (negative : Bool) (num den : Nat) : Binary64 :=
  if num == 0 then finite negative 0 (-1074)
  else
    let e := exponentFor num den
    let (n, d) := scaled num den e
    let m := roundDiv n d
    let (m, e) := if m == twoPow 53 then (twoPow 52, e + 1) else (m, e)
    if 971 < e then infinite negative else finite negative m e

/-- The number nearest to `n · 2 ^ e`. -/
def ofScaled (n e : Int) : Binary64 :=
  if 0 ≤ e then ofRatio (n < 0) (n.natAbs * twoPow e.toNat) 1
  else ofRatio (n < 0) n.natAbs (twoPow (-e).toNat)

/-- The number nearest to a whole number. -/
def ofInt (n : Int) : Binary64 := ofRatio (n < 0) n.natAbs 1

/-- The number of decimal digits of a whole number. -/
def digitCount (n : Nat) : Nat := (Nat.toDigits 10 n).length

/-- The number nearest to `± digits · 10 ^ e`. -/
def ofDecimal (negative : Bool) (digits : Nat) (e : Int) : Binary64 :=
  if digits == 0 then finite negative 0 (-1074)
  else if 400 < digitCount digits + e then infinite negative
  else if digitCount digits + e < -400 then finite negative 0 (-1074)
  else if 0 ≤ e then ofRatio negative (digits * tenPow e.toNat) 1
  else ofRatio negative digits (tenPow (-e).toNat)

/-- The signed digits of a finite number. -/
def signedDigits (negative : Bool) (m : Nat) : Int := if negative then -m else m

/-- The sum of two numbers. -/
def add : Binary64 → Binary64 → Binary64
  | nan, _ => nan
  | _, nan => nan
  | infinite a, infinite b => if a == b then infinite a else nan
  | infinite a, _ => infinite a
  | _, infinite b => infinite b
  | finite a m e, finite b n f =>
    let g := min e f
    let x := signedDigits a m * twoPow (e - g).toNat + signedDigits b n * twoPow (f - g).toNat
    if x == 0 then finite (a && b) 0 (-1074) else ofScaled x g

/-- The number with the other sign. -/
def neg : Binary64 → Binary64
  | nan => nan
  | infinite a => infinite !a
  | finite a m e => finite (!a) m e

/-- A number taken a whole number of times. -/
def times (k : Nat) : Binary64 → Binary64
  | nan => nan
  | infinite a => if k == 0 then nan else infinite a
  | finite a m e => if m * k == 0 then finite a 0 (-1074) else ofScaled (signedDigits a (m * k)) e

/-- Whether one number is less than another; nothing compares with what is no number. -/
def lt : Binary64 → Binary64 → Bool
  | nan, _ => false
  | _, nan => false
  | infinite a, infinite b => a && !b
  | infinite a, _ => a
  | _, infinite b => !b
  | finite a m e, finite b n f =>
    let g := min e f
    signedDigits a m * twoPow (e - g).toNat < signedDigits b n * twoPow (f - g).toNat

/-- Whether a number is at most zero. -/
def atMostZero (x : Binary64) : Bool :=
  match x with
  | nan => false
  | _ => !(lt zero x)

/-- The whole part of a finite number, toward zero. -/
def truncate? : Binary64 → Option Int
  | finite a m e =>
    let n : Nat := if 0 ≤ e then m * twoPow e.toNat else m / twoPow (-e).toNat
    some (if a then -n else n)
  | _ => none

end Binary64

end SourceChange
