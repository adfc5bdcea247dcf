import SourceChange.Datum.Moment
import SourceChange.Number.Decimal
import SourceChange.Text.Quoted

/-!
Values of configuration files.

Besides what JSON knows there are moments and bytes, sets and pairs, the keys of a table can be any
values that are no collections, and a collection can be referred to from within itself.
-/

namespace SourceChange

/-- The kinds of collections that can be referred to from within themselves. -/
inductive Collection where
  | list
  | set
  | table
  deriving DecidableEq, Repr

/-- A value of a configuration file. -/
inductive Datum where
  | null
  | bool (b : Bool)
  | int (n : Int)
  | float (x : Binary64)
  | string (s : String)
  | moment (m : Moment)
  | bytes (bs : List UInt8)
  | list (items : List Datum)
  | pair (first second : Datum)
  | set (items : List Datum)
  | table (members : List (Datum × Datum))
  /-- A collection as it is seen from within itself. -/
  | enclosing (kind : Collection)
  deriving Repr

namespace Collection

/-- The name of a kind of collection, as messages give it. -/
def name : Collection → String
  | list => "list"
  | set => "set"
  | table => "dict"

/-- A collection as it is shown within itself. -/
def shown : Collection → String
  | list => "[...]"
  | set => "set(...)"
  | table => "\x7b...\x7d"

end Collection

namespace Datum

/-- The name of the kind of a value, as messages give it. -/
def kindName : Datum → String
  | null => "NoneType"
  | bool _ => "bool"
  | int _ => "int"
  | float _ => "float"
  | string _ => "str"
  | moment m => m.kindName
  | bytes _ => "bytes"
  | list _ => "list"
  | pair _ _ => "tuple"
  | set _ => "set"
  | table _ => "dict"
  | enclosing kind => kind.name

/-- Whether two keys are the same. Truth values count as numbers. -/
def sameKey : Datum → Datum → Bool
  | null, null => true
  | bool a, bool b => a == b
  | bool a, int n => n == if a then 1 else 0
  | int n, bool a => n == if a then 1 else 0
  | int m, int n => m == n
  | float x, float y => x == y
  | float x, int n => x == Binary64.ofInt n
  | int n, float x => x == Binary64.ofInt n
  | string s, string t => s == t
  | moment m, moment n => m == n
  | bytes a, bytes b => a == b
  | _, _ => false

/-- Sets a member: a key that is present keeps its place. -/
def setMember (key v : Datum) : List (Datum × Datum) → List (Datum × Datum)
  | [] => [(key, v)]
  | (k, w) :: ms => if k.sameKey key then (k, v) :: ms else (k, w) :: setMember key v ms

/-- The value of a member with a text as its key. -/
def member? (key : String) (ms : List (Datum × Datum)) : Option Datum :=
  (ms.find? fun (k, _) => k.sameKey (string key)).map (·.2)

/-- One byte of quoted bytes. -/
def quoteByte (q : Char) (b : UInt8) : List Char :=
  let c := Char.ofNat b.toNat
  if c == q || c == '\\' then ['\\', c]
  else if c == '\n' then ['\\', 'n']
  else if c == '\r' then ['\\', 'r']
  else if c == '\t' then ['\\', 't']
  else if 0x20 ≤ b.toNat && b.toNat < 0x7F then [c]
  else '\\' :: 'x' :: Text.hex 2 b.toNat

/-- Bytes in quotes. -/
def quoteBytes (bs : List UInt8) : String :=
  let q := Text.quoteFor (bs.map fun b => Char.ofNat b.toNat)
  String.ofList ('b' :: q :: bs.flatMap (quoteByte q) ++ [q])

mutual

/-- A value as messages show it: strings in quotes, `None`, `True` and `False`. -/
def shown : Datum → String
  | null => "None"
  | bool b => if b then "True" else "False"
  | int n => toString n
  | float x => x.text
  | string s => Text.quote s
  | moment m => m.shown
  | bytes bs => quoteBytes bs
  | list items => "[" ++ shownItems items ++ "]"
  | pair a b => "(" ++ shown a ++ ", " ++ shown b ++ ")"
  | set [] => "set()"
  | set (v :: vs) => "\x7b" ++ shownItems (v :: vs) ++ "\x7d"
  | table ms => "\x7b" ++ shownMembers ms ++ "\x7d"
  | enclosing kind => kind.shown

/-- Items with commas between them. -/
def shownItems : List Datum → String
  | [] => ""
  | [v] => shown v
  | v :: w :: vs => shown v ++ ", " ++ shownItems (w :: vs)

/-- Members with commas between them. -/
def shownMembers : List (Datum × Datum) → String
  | [] => ""
  | [(k, v)] => shown k ++ ": " ++ shown v
  | (k, v) :: m :: ms => shown k ++ ": " ++ shown v ++ ", " ++ shownMembers (m :: ms)

end

/-- A value as a message shows it in running text: a string without its quotes. -/
def plain : Datum → String
  | string s => s
  | moment m => m.text
  | v => shown v

/-- Whether a value counts as true: all do but nothing, zero and what is empty. -/
def truth : Datum → Bool
  | null => false
  | bool b => b
  | int n => n != 0
  | float (.finite _ m _) => m != 0
  | float _ => true
  | string s => s != ""
  | moment _ => true
  | bytes bs => !bs.isEmpty
  | list xs => !xs.isEmpty
  | pair _ _ => true
  | set xs => !xs.isEmpty
  | table ms => !ms.isEmpty
  | enclosing _ => true

end Datum

end SourceChange
