import SourceChange.Text.Case
import SourceChange.Number.Reader

/-!
The types of YAML 1.1, and which of them a plain scalar is of.

`on`, `off`, `yes` and `no` are truth values, a leading zero makes a number octal, colons make it
sexagesimal, and a fraction has to have a point. All else is a string.
-/

namespace SourceChange.Yaml

/-- The types of values. -/
inductive Tag where
  | null
  | bool
  | int
  | float
  | binary
  | moment
  | string
  | list
  | table
  | set
  /-- A list of pairs without a key that occurs twice. -/
  | orderedTable
  | pairs
  /-- The key under which members of other tables are taken over. -/
  | merge
  /-- The key of the usual value of a table. -/
  | usual
  | unknown
  deriving DecidableEq, Repr

namespace Tag

/-- What the names of the types start with. -/
def root : String := "tag:yaml.org,2002:"

/-- The types by the ends of their names. -/
def names : List (String × Tag) :=
  [("null", null), ("bool", bool), ("int", int), ("float", float), ("binary", binary),
   ("timestamp", moment), ("str", string), ("seq", list), ("map", table), ("set", set),
   ("omap", orderedTable), ("pairs", pairs)]

/-- The type with a name. -/
def ofName (name : String) : Tag :=
  ((names.find? fun (n, _) => root ++ n == name).map (·.2)).getD unknown

end Tag

/-- The spellings of a word in which it is recognised. -/
def spellings (word : String) : List String := [word, Text.capitalize word, Text.upper word]

/-- The words for true. -/
def trueWords : List String := ["yes", "true", "on"]

/-- The words for false. -/
def falseWords : List String := ["no", "false", "off"]

/-- The words for nothing. -/
def nullWords : List String := ["", "~"] ++ spellings "null"

/-- Digits of a class and underscores, at least one of either. -/
def allOf (p : Char → Bool) (cs : List Char) : Bool := !cs.isEmpty && cs.all fun c => p c || c == '_'

/-- A digit of a class, and then digits and underscores. -/
def startsWith (p : Char → Bool) : List Char → Bool
  | [] => false
  | c :: cs => p c && cs.all fun d => d.isDigit || d == '_'

/-- Digits other than zero. -/
def isPositiveDigit (c : Char) : Bool := c.isDigit && c != '0'

/-- One place of a sexagesimal number after the first: at most 59. -/
def isSixty : List Char → Bool
  | [c] => c.isDigit
  | [c, d] => '0' ≤ c && c ≤ '5' && d.isDigit
  | _ => false

/-- Whether a text without a sign has the form of a whole number. -/
def isWhole : List Char → Bool
  | ['0'] => true
  | '0' :: 'b' :: r => allOf (fun c => c == '0' || c == '1') r
  | '0' :: 'x' :: r => allOf Number.isHexDigit r
  | '0' :: r => allOf (fun c => '0' ≤ c && c ≤ '7') r
  | cs =>
    match Text.splitOnChar ':' cs with
    | first :: places => startsWith isPositiveDigit first && places.all isSixty
    | [] => false

/-- Whether a text is an exponent with its sign, or empty. -/
def isExponent : List Char → Bool
  | [] => true
  | e :: sign :: ds => (e == 'e' || e == 'E') && (sign == '+' || sign == '-') && !ds.isEmpty && ds.all Char.isDigit
  | _ => false

/-- Digits and underscores. -/
def isPlaceChar (c : Char) : Bool := c.isDigit || c == '_'

/-- Whether a text without a sign has the form of a fraction; one that starts with its point has no sign. -/
def isFraction (hasSign : Bool) (cs : List Char) : Bool :=
  let whole := cs.takeWhile (· != '.')
  match cs.dropWhile (· != '.') with
  | '.' :: r =>
    let power := r.dropWhile isPlaceChar
    match Text.splitOnChar ':' whole with
    | [] => false
    | [[]] => !hasSign && startsWith Char.isDigit (r.takeWhile isPlaceChar) && isExponent power
    | [first] => startsWith Char.isDigit first && isExponent power
    | first :: places => startsWith Char.isDigit first && places.all isSixty && power.isEmpty
  | _ => false

/-- Whether a text without a sign is the word for a number without end, or for no number. -/
def isSpecial (hasSign : Bool) (cs : List Char) : Bool :=
  let word := String.ofList cs
  [".inf", ".Inf", ".INF"].contains word || (!hasSign && [".nan", ".NaN", ".NAN"].contains word)

/-- Takes one or two digits off a text. -/
def cutShort? : List Char → Option (Nat × List Char)
  | c :: d :: r =>
    if c.isDigit then
      if d.isDigit then some (Number.ofBase 10 [c, d], r) else some (Number.ofBase 10 [c], d :: r)
    else none
  | [c] => if c.isDigit then some (Number.ofBase 10 [c], []) else none
  | [] => none

/-- Takes a fixed number of digits off a text. -/
def cutDigits? (n : Nat) (cs : List Char) : Option (Nat × List Char) :=
  let ds := cs.take n
  if ds.length == n && ds.all Char.isDigit then some (Number.ofBase 10 ds, cs.drop n) else none

/-- Takes a character off a text. -/
def cutChar? (c : Char) : List Char → Option (List Char)
  | d :: r => if d == c then some r else none
  | [] => none

/-- The numbers of a moment as they are written. -/
structure MomentText where
  year : Nat
  month : Nat
  day : Nat
  /-- Hour, minute and second. -/
  time : Option (Nat × Nat × Nat)
  /-- The digits of the fraction of a second. -/
  places : List Char
  /-- Minutes ahead of universal time. -/
  offset : Option Int
  deriving Repr

/-- How far a time is from universal time, which ends a text. -/
def offset? (cs : List Char) : Option (Option Int) :=
  match cs with
  | [] => some none
  | _ =>
    match cs.dropWhile fun c => c == ' ' || c == '\t' with
    | ['Z'] => some (some 0)
    | sign :: r => do
      if !(sign == '+' || sign == '-') then none
      let (hours, r) ← cutShort? r
      let minutes ← match r with
        | [] => some 0
        | _ => do
          let (m, r) ← cutDigits? 2 (← cutChar? ':' r)
          if r.isEmpty then some m else none
      return some (Number.signed (sign == '-') (hours * 60 + minutes))
    | [] => none

/-- A moment as it is written. A day alone may have single digits only where `loose` says so. -/
def momentText? (loose : Bool) (cs : List Char) : Option MomentText := do
  let (year, r) ← cutDigits? 4 cs
  let (month, r) ← cutShort? (← cutChar? '-' r)
  let (day, r) ← cutShort? (← cutChar? '-' r)
  match r with
  | [] => if loose || cs.length == 10 then return ⟨year, month, day, none, [], none⟩ else none
  | t :: r' =>
    let r ←
      if t == 'T' || t == 't' then some r'
      else if t == ' ' || t == '\t' then some (r'.dropWhile fun c => c == ' ' || c == '\t')
      else none
    let (hour, r) ← cutShort? r
    let (minute, r) ← cutDigits? 2 (← cutChar? ':' r)
    let (second, r) ← cutDigits? 2 (← cutChar? ':' r)
    let (places, r) := match r with
      | '.' :: r => (r.takeWhile Char.isDigit, r.dropWhile Char.isDigit)
      | r => ([], r)
    return ⟨year, month, day, some (hour, minute, second), places, ← offset? r⟩

/-- The type of a plain scalar. -/
def Tag.ofPlain (s : String) : Tag :=
  let (_, cs) := Number.cutSign s.toList
  let hasSign := cs.length != s.length
  if nullWords.contains s then .null
  else if ((trueWords ++ falseWords).flatMap spellings).contains s then .bool
  else if isSpecial hasSign cs || isFraction hasSign cs then .float
  else if isWhole cs then .int
  else if s == "<<" then .merge
  else if s == "=" then .usual
  else if (momentText? false s.toList).isSome then .moment
  else .string

end SourceChange.Yaml
