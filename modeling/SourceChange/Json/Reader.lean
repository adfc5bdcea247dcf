import SourceChange.Json.Value

/-!
Reading JSON text. `Json.parse?` accepts one value with blank space around it. The later of two
members with the same key wins, in the place of the first. `NaN` and the infinities are accepted. A string
that names one half of a surrogate pair without the other is none of characters, and is not accepted.
-/

namespace SourceChange.Json

/-- Blank space between the tokens of JSON text. -/
def isGap (c : Char) : Bool := c == ' ' || c == '\t' || c == '\n' || c == '\r'

/-- A text without the blank space at its start. -/
def skipGap (cs : List Char) : List Char := cs.dropWhile isGap

/-- The value of a digit of base sixteen. -/
def hexValue? (c : Char) : Option Nat :=
  if c.isDigit then some (c.toNat - 0x30)
  else if 'a' ≤ c && c ≤ 'f' then some (c.toNat - 0x61 + 10)
  else if 'A' ≤ c && c ≤ 'F' then some (c.toNat - 0x41 + 10)
  else none

/-- The value of four digits of base sixteen. -/
def hex4? (a b c d : Char) : Option Nat := do
  let w ← hexValue? a
  let x ← hexValue? b
  let y ← hexValue? c
  let z ← hexValue? d
  return ((w * 16 + x) * 16 + y) * 16 + z

/-- The character with a number, unless that is one half of a surrogate pair. -/
def character? (n : Nat) : Option Char := if n.isValidChar then some (Char.ofNat n) else none

/-- The character after a backslash. -/
def escaped? : Char → Option Char
  | '\x22' => some '\x22'
  | '\\' => some '\\'
  | '/' => some '/'
  | 'b' => some (Char.ofNat 8)
  | 'f' => some (Char.ofNat 12)
  | 'n' => some '\n'
  | 'r' => some '\r'
  | 't' => some '\t'
  | _ => none

/-- The rest of a string after its opening quote, and what follows the closing one. -/
def string? : List Char → Option (List Char × List Char)
  | [] => none
  | '\x22' :: r => some ([], r)
  | '\\' :: 'u' :: a :: b :: c :: d :: '\\' :: 'u' :: a' :: b' :: c' :: d' :: r =>
    match hex4? a b c d, hex4? a' b' c' d' with
    | some hi, some lo =>
      if 0xD800 ≤ hi && hi < 0xDC00 && 0xDC00 ≤ lo && lo < 0xE000 then
        (string? r).map fun (t, r') =>
          (Char.ofNat (0x10000 + (hi - 0xD800) * 0x400 + (lo - 0xDC00)) :: t, r')
      else
        match character? hi with
        | some x =>
          (string? ('\\' :: 'u' :: a' :: b' :: c' :: d' :: r)).map fun (t, r') => (x :: t, r')
        | none => none
    | some _, none => none
    | none, _ => none
  | '\\' :: 'u' :: a :: b :: c :: d :: r =>
    match (hex4? a b c d).bind character? with
    | some x => (string? r).map fun (t, r') => (x :: t, r')
    | none => none
  | '\\' :: c :: r =>
    match escaped? c with
    | some x => (string? r).map fun (t, r') => (x :: t, r')
    | none => none
  | c :: r =>
    if c == '\\' || c.toNat < 0x20 then none
    else (string? r).map fun (t, r') => (c :: t, r')

/-- The value of a run of ASCII digits. -/
def digitsValue (ds : List Char) : Nat := ds.foldl (fun n d => n * 10 + (d.toNat - 0x30)) 0

/-- The fraction of a number, without its point, and what follows. -/
def fraction? : List Char → Option (List Char) × List Char
  | '.' :: r =>
    match r.takeWhile Char.isDigit with
    | [] => (none, '.' :: r)
    | ds => (some ds, r.dropWhile Char.isDigit)
  | r => (none, r)

/-- The exponent of a number and what follows. -/
def exponent? : List Char → Option Int × List Char
  | e :: r =>
    if e == 'e' || e == 'E' then
      let (negative, r') := match r with
        | '+' :: r' => (false, r')
        | '-' :: r' => (true, r')
        | r' => (false, r')
      match r'.takeWhile Char.isDigit with
      | [] => (none, e :: r)
      | ds =>
        let n : Int := digitsValue ds
        (some (if negative then -n else n), r'.dropWhile Char.isDigit)
    else (none, e :: r)
  | [] => (none, [])

/-- The number at the front of a text after its sign, and what follows it. -/
def number? (negative : Bool) (cs : List Char) : Option (Json × List Char) :=
  match cs.takeWhile Char.isDigit with
  | [] => none
  | ds =>
    let (whole, r) : List Char × List Char := match ds with
      | '0' :: _ => (['0'], cs.drop 1)
      | _ => (ds, cs.dropWhile Char.isDigit)
    let (frac, r₁) := fraction? r
    let (exp, r₂) := exponent? r₁
    match frac, exp with
    | none, none =>
      let n : Int := digitsValue whole
      some (int (if negative then -n else n), r₂)
    | _, _ =>
      let fs := frac.getD []
      some (float (Binary64.ofDecimal negative (digitsValue (whole ++ fs))
        (exp.getD 0 - fs.length)), r₂)

/-- What follows a word, if the text starts with it. -/
def afterWord? (w : String) (cs : List Char) : Option (List Char) :=
  if w.toList.isPrefixOf cs then some (cs.drop w.length) else none

/-- A value that is no container. -/
def scalar? (cs : List Char) : Option (Json × List Char) :=
  match cs with
  | '\x22' :: r => (string? r).map fun (t, r') => (string (String.ofList t), r')
  | '-' :: r =>
    match afterWord? "Infinity" r with
    | some r' => some (float (.infinite true), r')
    | none => number? true r
  | _ =>
    (afterWord? "null" cs).map (null, ·)
    <|> (afterWord? "true" cs).map (bool true, ·)
    <|> (afterWord? "false" cs).map (bool false, ·)
    <|> (afterWord? "NaN" cs).map (float .nan, ·)
    <|> (afterWord? "Infinity" cs).map (float (.infinite false), ·)
    <|> number? false cs

mutual

/-- The value at the front of a text, with containers nested and continued at most `n` steps. -/
def value? : Nat → List Char → Option (Json × List Char)
  | 0, _ => none
  | n + 1, cs =>
    match cs with
    | '[' :: r =>
      match skipGap r with
      | ']' :: r' => some (array [], r')
      | r' => (items? n r').map fun (vs, r'') => (array vs, r'')
    | '\x7b' :: r =>
      match skipGap r with
      | '\x7d' :: r' => some (object [], r')
      | r' =>
        (members? n r').map fun (ms, r'') =>
          (object (ms.foldl (fun acc (k, v) => setMember k v acc) []), r'')
    | _ => scalar? cs

/-- The items of an array up to its closing bracket. -/
def items? : Nat → List Char → Option (List Json × List Char)
  | 0, _ => none
  | n + 1, cs =>
    match value? n cs with
    | some (v, r) =>
      match skipGap r with
      | ',' :: r' => (items? n (skipGap r')).map fun (vs, r'') => (v :: vs, r'')
      | ']' :: r' => some ([v], r')
      | _ => none
    | none => none

/-- The members of an object up to its closing brace. -/
def members? : Nat → List Char → Option (List (String × Json) × List Char)
  | 0, _ => none
  | n + 1, cs =>
    match cs with
    | '\x22' :: r =>
      match string? r with
      | some (k, r) =>
        match skipGap r with
        | ':' :: r =>
          match value? n (skipGap r) with
          | some (v, r) =>
            match skipGap r with
            | ',' :: r' =>
              (members? n (skipGap r')).map fun (ms, r'') => ((String.ofList k, v) :: ms, r'')
            | '\x7d' :: r' => some ([(String.ofList k, v)], r')
            | _ => none
          | none => none
        | _ => none
      | none => none
    | _ => none

end

/-- The value of a whole text. -/
def parse? (cs : List Char) : Option Json :=
  match value? (2 * cs.length + 2) (skipGap cs) with
  | some (v, r) => if (skipGap r).isEmpty then some v else none
  | none => none

end SourceChange.Json
