import SourceChange.Datum.Basic
import SourceChange.Number.Reader

/-!
Keys and values of TOML.

Moments and numbers are the longest texts of their form; what follows them has to be the end of the value.
-/

namespace SourceChange.Toml

/-- Spaces and tabs. -/
def isSpace (c : Char) : Bool := c == ' ' || c == '\t'

/-- Control characters other than the tab. -/
def isControl (c : Char) : Bool := (c.toNat < 0x20 && c != '\t') || c.toNat == 0x7F

/-- Characters of keys without quotes. -/
def isKeyChar (c : Char) : Bool := c.isAlphanum || c == '_' || c == '-'

/-- A comment, which ends before the line feed. Fails at a control character. -/
def comment? : List Char → Option (List Char)
  | [] => some []
  | '\n' :: cs => some ('\n' :: cs)
  | c :: cs => if isControl c then none else comment? cs

/-- Skips blanks, line feeds and comments. -/
def skipGaps? : Nat → List Char → Option (List Char)
  | 0, _ => none
  | n + 1, cs =>
    match cs.dropWhile fun c => isSpace c || c == '\n' with
    | '#' :: r =>
      match comment? r with
      | some r' => skipGaps? n r'
      | none => none
    | r => some r

/-- The characters that an escape stands for. -/
def escapes : List (Char × Char) :=
  [('b', '\x08'), ('t', '\t'), ('n', '\n'), ('f', '\x0c'), ('r', '\r'), ('\x22', '\x22'), ('\\', '\\')]

/-- A character by its number, unless the number is none of a character. -/
def charOf? (n : Nat) : Option Char := if h : n.isValidChar then some (Char.ofNatAux n h) else none

/-- An escape after its backslash, and what follows it. -/
def escape? : List Char → Option (Char × List Char)
  | [] => none
  | c :: r =>
    if c == 'u' || c == 'U' then
      let w := if c == 'u' then 4 else 8
      let ds := r.take w
      if ds.length == w && ds.all Number.isHexDigit then (charOf? (Number.ofBase 16 ds)).map (·, r.drop w) else none
    else (escapes.lookup c).map (·, r)

/-- A text in double quotes on one line, after the opening one, and what follows it. -/
def basic? : Nat → List Char → Option (List Char × List Char)
  | 0, _ => none
  | _ + 1, [] => none
  | n + 1, c :: r =>
    if c == '\x22' then some ([], r)
    else if c == '\\' then
      match escape? r with
      | some (x, r') => (basic? n r').map fun (t, s) => (x :: t, s)
      | none => none
    else if isControl c then none
    else (basic? n r).map fun (t, s) => (c :: t, s)

/-- A text in single quotes on one line, after the opening one, and what follows it. -/
def literal? : List Char → Option (List Char × List Char)
  | [] => none
  | c :: r =>
    if c == '\x27' then some ([], r)
    else if isControl c then none
    else (literal? r).map fun (t, s) => (c :: t, s)

/-- The end of a text in triple quotes: up to two quotes more belong to the text. -/
def closing? (q : Char) : List Char → Option (List Char × List Char)
  | a :: b :: c :: d :: e :: r =>
    if a == q && b == q && c == q then
      if d == q && e == q then some ([q, q], r)
      else if d == q then some ([q], e :: r)
      else some ([], d :: e :: r)
    else none
  | a :: b :: c :: d :: r =>
    if a == q && b == q && c == q then if d == q then some ([q], r) else some ([], d :: r) else none
  | a :: b :: c :: r => if a == q && b == q && c == q then some ([], r) else none
  | _ => none

/-- Whether a backslash stands at the end of a line. -/
def endsLine (cs : List Char) : Bool := (cs.dropWhile isSpace).head? == some '\n'

/-- A text in triple quotes, after the opening ones, and what follows it. Double quotes take escapes, and
a backslash at the end of a line drops all blanks after it. -/
def long? (q : Char) : Nat → List Char → Option (List Char × List Char)
  | 0, _ => none
  | n + 1, cs =>
    match closing? q cs with
    | some r => some r
    | none =>
      match cs with
      | [] => none
      | c :: r =>
        if q == '\x22' && c == '\\' then
          if endsLine r then long? q n (r.dropWhile fun d => isSpace d || d == '\n')
          else
            match escape? r with
            | some (x, r') => (long? q n r').map fun (t, s) => (x :: t, s)
            | none => none
        else if isControl c && c != '\n' then none
        else (long? q n r).map fun (t, s) => (c :: t, s)

/-- A text without a line feed at its start. -/
def dropNewline : List Char → List Char
  | '\n' :: cs => cs
  | cs => cs

/-- A string, and what follows it. -/
def string? (cs : List Char) : Option (String × List Char) :=
  let text (r : Option (List Char × List Char)) : Option (String × List Char) :=
    r.map fun (t, s) => (String.ofList t, s)
  match cs with
  | '\x22' :: '\x22' :: '\x22' :: r => text (long? '\x22' (r.length + 1) (dropNewline r))
  | '\x27' :: '\x27' :: '\x27' :: r => text (long? '\x27' (r.length + 1) (dropNewline r))
  | '\x22' :: r => text (basic? (r.length + 1) r)
  | '\x27' :: r => text (literal? r)
  | _ => none

/-- One part of a key, and what follows it. -/
def keyPart? (cs : List Char) : Option (String × List Char) :=
  match cs with
  | '\x22' :: r => (basic? (r.length + 1) r).map fun (t, s) => (String.ofList t, s)
  | '\x27' :: r => (literal? r).map fun (t, s) => (String.ofList t, s)
  | _ =>
    match cs.takeWhile isKeyChar with
    | [] => none
    | t => some (String.ofList t, cs.dropWhile isKeyChar)

/-- A key of one or several parts, and what follows it. -/
def key? : Nat → List Char → Option (List String × List Char)
  | 0, _ => none
  | n + 1, cs =>
    match keyPart? cs with
    | none => none
    | some (k, r) =>
      match r.dropWhile isSpace with
      | '.' :: r' => (key? n (r'.dropWhile isSpace)).map fun (ks, s) => (k :: ks, s)
      | r' => some ([k], r')

/-- Takes a fixed number of digits off a text, if their value is within bounds. -/
def cutNumber? (width least most : Nat) (cs : List Char) : Option (Nat × List Char) :=
  let ds := cs.take width
  let n := Number.ofBase 10 ds
  if ds.length == width && ds.all Char.isDigit && least ≤ n && n ≤ most then some (n, cs.drop width)
  else none

/-- Takes a character off a text. -/
def cutChar? (c : Char) : List Char → Option (List Char)
  | d :: r => if d == c then some r else none
  | [] => none

/-- The microseconds of a fraction of a second, and what follows it; further digits are dropped. -/
def cutMicros (cs : List Char) : Nat × List Char :=
  match cs with
  | '.' :: r =>
    match r.takeWhile Char.isDigit with
    | [] => (0, cs)
    | places =>
      let ds := places.take 6
      (Number.ofBase 10 (ds ++ List.replicate (6 - ds.length) '0'), r.dropWhile Char.isDigit)
  | _ => (0, cs)

/-- A time of the day, and what follows it. -/
def clock? (cs : List Char) : Option (Clock × List Char) := do
  let (hour, r) ← cutNumber? 2 0 23 cs
  let (minute, r) ← cutNumber? 2 0 59 (← cutChar? ':' r)
  let (second, r) ← cutNumber? 2 0 59 (← cutChar? ':' r)
  let (micro, r) := cutMicros r
  return (⟨hour, minute, second, micro⟩, r)

/-- How far a time is from universal time, in minutes, and what follows it. -/
def offset? (cs : List Char) : Option (Int × List Char) :=
  match cs with
  | 'Z' :: r | 'z' :: r => some (0, r)
  | sign :: r => do
    if !(sign == '+' || sign == '-') then none
    let (hours, r) ← cutNumber? 2 0 23 r
    let (minutes, r) ← cutNumber? 2 0 59 (← cutChar? ':' r)
    return (Number.signed (sign == '-') (hours * 60 + minutes), r)
  | [] => none

/-- The time of the day after a date, and how far it is from universal time. -/
def clockAfter? (cs : List Char) : Option (Clock × Option Int × List Char) :=
  match cs with
  | t :: r => do
    if !(t == 'T' || t == 't' || t == ' ') then none
    let (c, r) ← clock? r
    match offset? r with
    | some (z, r) => return (c, some z, r)
    | none => return (c, none, r)
  | [] => none

/-- The numbers of a date, and what follows it. -/
def date? (cs : List Char) : Option (Nat × Nat × Nat × List Char) := do
  let (year, r) ← cutNumber? 4 0 9999 cs
  let (month, r) ← cutNumber? 2 1 12 (← cutChar? '-' r)
  let (day, r) ← cutNumber? 2 1 31 (← cutChar? '-' r)
  return (year, month, day, r)

/-- A moment from the numbers of its date and what follows that, unless there is no such day. -/
def moment? (year month day : Nat) (cs : List Char) : Option (Datum × List Char) :=
  match Day.of? year month day with
  | .error _ => none
  | .ok d =>
    match clockAfter? cs with
    | some (c, offset, r) => some (.moment (.full d c offset), r)
    | none => some (.moment (.day d), cs)

/-- Digits of a class with single underscores between them, and what follows them. -/
def cutDigits (p : Char → Bool) : List Char → List Char × List Char
  | [] => ([], [])
  | '_' :: c :: cs =>
    if p c then
      let (ds, r) := cutDigits p cs
      (c :: ds, r)
    else ([], '_' :: c :: cs)
  | c :: cs =>
    if p c then
      let (ds, r) := cutDigits p cs
      (c :: ds, r)
    else ([], c :: cs)

/-- Digits as `cutDigits` takes them, of which the first is no underscore and there is one at least. -/
def digits? (p : Char → Bool) (cs : List Char) : Option (List Char × List Char) :=
  if (cs.head?.map p).getD false then some (cutDigits p cs) else none

/-- A whole number in a base other than ten, after its mark, and what follows it. -/
def inBase? (base : Nat) (p : Char → Bool) (cs : List Char) : Option (Datum × List Char) :=
  (digits? p cs).map fun (ds, r) => (.int (Number.ofBase base ds), r)

/-- The digits before the point, of which the first is zero only if it is the last. -/
def wholeDigits? : List Char → Option (List Char × List Char)
  | '0' :: r => some (['0'], r)
  | cs => digits? Char.isDigit cs

/-- The digits after a point, and what follows them. -/
def cutPlaces (cs : List Char) : Option (List Char × List Char) :=
  match cs with
  | '.' :: r => digits? Char.isDigit r
  | _ => none

/-- An exponent, and what follows it. -/
def cutExponent (cs : List Char) : Option (Int × List Char) :=
  match cs with
  | e :: r =>
    if e == 'e' || e == 'E' then
      let (down, r) := Number.cutSign r
      (digits? Char.isDigit r).map fun (ds, r) => (Number.signed down (Number.ofBase 10 ds), r)
    else none
  | [] => none

/-- A number to the base ten, and what follows it. -/
def decimal? (cs : List Char) : Option (Datum × List Char) := do
  let (negative, r) := Number.cutSign cs
  let (whole, r) ← wholeDigits? r
  let fraction := cutPlaces r
  let (places, r) := fraction.getD ([], r)
  let power := cutExponent r
  let (e, r) := power.getD (0, r)
  let n := Number.ofBase 10 (whole ++ places)
  if fraction.isSome || power.isSome then
    return (.float (Binary64.ofDecimal negative n (e - places.length)), r)
  else return (.int (Number.signed negative n), r)

/-- A number, and what follows it. -/
def number? (cs : List Char) : Option (Datum × List Char) :=
  let marked := match cs with
    | '0' :: 'x' :: r => inBase? 16 Number.isHexDigit r
    | '0' :: 'b' :: r => inBase? 2 (fun c => c == '0' || c == '1') r
    | '0' :: 'o' :: r => inBase? 8 (fun c => '0' ≤ c && c ≤ '7') r
    | _ => none
  marked <|> decimal? cs

/-- The words for truth values, for numbers without end and for no number. -/
def words : List (String × Datum) :=
  [("true", .bool true), ("false", .bool false), ("inf", .float (.infinite false)), ("nan", .float .nan),
   ("+inf", .float (.infinite false)), ("-inf", .float (.infinite true)), ("+nan", .float .nan),
   ("-nan", .float .nan)]

/-- A word at the front of a text, and what follows it. -/
def word? (cs : List Char) : Option (Datum × List Char) :=
  (words.find? fun (w, _) => w.toList.isPrefixOf cs).map fun (w, v) => (v, cs.drop w.length)

/-- A moment, a number or a word, and what follows it. -/
def simple? (cs : List Char) : Option (Datum × List Char) :=
  match date? cs with
  | some (year, month, day, r) => moment? year month day r
  | none =>
    match clock? cs with
    | some (c, r) => some (.moment (.clock c), r)
    | none => number? cs <|> word? cs

/-- The members of a table by their keys. -/
abbrev Members := List (Datum × Datum)

/-- Sets a value below a table; a key that is present can only be gone through. -/
def setNew? (path : List String) (v : Datum) : Members → Option Members :=
  match path with
  | [] => fun _ => none
  | [k] => fun ms => if (Datum.member? k ms).isSome then none else some (ms ++ [(.string k, v)])
  | k :: ks => fun ms =>
    match Datum.member? k ms with
    | none => (setNew? ks v []).map fun inner => ms ++ [(.string k, .table inner)]
    | some (.table inner) =>
      (setNew? ks v inner).map fun inner => Datum.setMember (.string k) (.table inner) ms
    | some _ => none

mutual

/-- A value, and what follows it. -/
def value? : Nat → List Char → Option (Datum × List Char)
  | 0, _ => none
  | n + 1, cs =>
    match cs with
    | '[' :: r => (items? n r).map fun (vs, s) => (.list vs, s)
    | '\x7b' :: r =>
      match r.dropWhile isSpace with
      | '\x7d' :: s => some (.table [], s)
      | r' => (members? n r' [] []).map fun (ms, s) => (.table ms, s)
    | '\x22' :: _ | '\x27' :: _ => (string? cs).map fun (t, s) => (.string t, s)
    | _ => simple? cs

/-- The items of an array up to its closing bracket. -/
def items? : Nat → List Char → Option (List Datum × List Char)
  | 0, _ => none
  | n + 1, cs =>
    match skipGaps? (cs.length + 1) cs with
    | none => none
    | some (']' :: r) => some ([], r)
    | some r =>
      match value? n r with
      | none => none
      | some (v, r') =>
        match skipGaps? (r'.length + 1) r' with
        | some (',' :: r'') => (items? n r'').map fun (vs, s) => (v :: vs, s)
        | some (']' :: r'') => some ([v], r'')
        | _ => none

/-- The members of an inline table up to its closing brace. A table that is a value of its own takes no
further members. -/
def members? : Nat → List Char → Members → List (List String) →
    Option (Members × List Char)
  | 0, _, _, _ => none
  | n + 1, cs, done, closed =>
    match key? (cs.length + 1) cs with
    | some (path, '=' :: r) =>
      match value? n (r.dropWhile isSpace) with
      | none => none
      | some (v, r') =>
        if closed.any (·.isPrefixOf path) then none
        else
          match setNew? path v done with
          | none => none
          | some done =>
            let closed := match v with
              | .table _ | .list _ => path :: closed
              | _ => closed
            match r'.dropWhile isSpace with
            | ',' :: r'' => members? n (r''.dropWhile isSpace) done closed
            | '\x7d' :: r'' => some (done, r'')
            | _ => none
    | _ => none

end

end SourceChange.Toml
