import SourceChange.Number.Decimal
import SourceChange.Text.Basic
import SourceChange.Text.Quoted

/-!
JSON values. Objects keep the order of their members, and whole numbers are apart from those written
with a point or an exponent.
-/

namespace SourceChange

/-- A JSON value. -/
inductive Json where
  | null
  | bool (b : Bool)
  | int (n : Int)
  | float (x : Binary64)
  | string (s : String)
  | array (items : List Json)
  | object (members : List (String × Json))
  deriving Repr

namespace Json

/-- The member of an object with the given key. -/
def member? (key : String) : Json → Option Json
  | object ms => ms.lookup key
  | _ => none

/-- Sets a member: a key that is present keeps its place. -/
def setMember (key : String) (v : Json) : List (String × Json) → List (String × Json)
  | [] => [(key, v)]
  | (k, w) :: ms => if k == key then (k, v) :: ms else (k, w) :: setMember key v ms

/-- The name of the kind of a value, as messages give it. -/
def kindName : Json → String
  | null => "NoneType"
  | bool _ => "bool"
  | int _ => "int"
  | float _ => "float"
  | string _ => "str"
  | array _ => "list"
  | object _ => "dict"

mutual

/-- A value as messages show it: strings in quotes, `None`, `True` and `False`. -/
def shown : Json → String
  | null => "None"
  | bool b => if b then "True" else "False"
  | int n => toString n
  | float x => x.text
  | string s => Text.quote s
  | array items => "[" ++ shownItems items ++ "]"
  | object ms => "\x7b" ++ shownMembers ms ++ "\x7d"

/-- Items with commas between them. -/
def shownItems : List Json → String
  | [] => ""
  | [v] => shown v
  | v :: w :: vs => shown v ++ ", " ++ shownItems (w :: vs)

/-- Members with commas between them. -/
def shownMembers : List (String × Json) → String
  | [] => ""
  | [(k, v)] => Text.quote k ++ ": " ++ shown v
  | (k, v) :: m :: ms => Text.quote k ++ ": " ++ shown v ++ ", " ++ shownMembers (m :: ms)

end

/-- A value as a message shows it in running text: a string without its quotes. -/
def plain : Json → String
  | string s => s
  | v => shown v

/-- One character of a JSON string; what is not plain ASCII is escaped, beyond the first plane as a
pair. -/
def escapeChar (c : Char) : List Char :=
  let n := c.toNat
  if c == '\x22' then ['\\', '\x22']
  else if c == '\\' then ['\\', '\\']
  else if c == '\n' then ['\\', 'n']
  else if c == '\r' then ['\\', 'r']
  else if c == '\t' then ['\\', 't']
  else if n == 0x08 then ['\\', 'b']
  else if n == 0x0C then ['\\', 'f']
  else if 0x20 ≤ n && n ≤ 0x7E then [c]
  else if n < 0x10000 then '\\' :: 'u' :: Text.hex 4 n
  else
    let m := n - 0x10000
    '\\' :: 'u' :: Text.hex 4 (0xD800 + m / 0x400) ++ '\\' :: 'u' :: Text.hex 4 (0xDC00 + m % 0x400)

/-- A JSON string in its quotes. -/
def quoted (s : String) : String :=
  String.ofList ('\x22' :: s.toList.flatMap escapeChar ++ ['\x22'])

mutual

/-- A value as JSON text on one line. -/
def render : Json → String
  | null => "null"
  | bool b => if b then "true" else "false"
  | int n => toString n
  | float x => x.sourceText
  | string s => quoted s
  | array items => "[" ++ renderItems items ++ "]"
  | object ms => "\x7b" ++ renderMembers ms ++ "\x7d"

/-- Items with commas between them. -/
def renderItems : List Json → String
  | [] => ""
  | [v] => render v
  | v :: w :: vs => render v ++ ", " ++ renderItems (w :: vs)

/-- Members with commas between them. -/
def renderMembers : List (String × Json) → String
  | [] => ""
  | [(k, v)] => quoted k ++ ": " ++ render v
  | (k, v) :: m :: ms => quoted k ++ ": " ++ render v ++ ", " ++ renderMembers (m :: ms)

end

/-! ### JSON text over several lines, two spaces deeper with every level -/

/-- A line break and the indentation of a level. -/
def newline (level : Nat) : String := "\n" ++ String.ofList (List.replicate (2 * level) ' ')

mutual

/-- A value at a level. -/
def indentedAt (level : Nat) : Json → String
  | array [] => "[]"
  | array (v :: vs) =>
    "[" ++ newline (level + 1) ++ indentedAt (level + 1) v ++ indentedItems (level + 1) vs ++
      newline level ++ "]"
  | object [] => "\x7b\x7d"
  | object ((k, v) :: ms) =>
    "\x7b" ++ newline (level + 1) ++ quoted k ++ ": " ++ indentedAt (level + 1) v ++
      indentedMembers (level + 1) ms ++ newline level ++ "\x7d"
  | null => "null"
  | bool b => if b then "true" else "false"
  | int n => toString n
  | float x => x.sourceText
  | string s => quoted s

/-- The items of an array after the first, at a level. -/
def indentedItems (level : Nat) : List Json → String
  | [] => ""
  | v :: vs => "," ++ newline level ++ indentedAt level v ++ indentedItems level vs

/-- The members of an object after the first, at a level. -/
def indentedMembers (level : Nat) : List (String × Json) → String
  | [] => ""
  | (k, v) :: ms =>
    "," ++ newline level ++ quoted k ++ ": " ++ indentedAt level v ++ indentedMembers level ms

end

/-- A value as JSON text over several lines. -/
def indented (v : Json) : String := indentedAt 0 v

end Json

end SourceChange
