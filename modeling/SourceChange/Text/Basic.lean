/-!
Operations on texts as lists of characters: searching, cutting, joining and trimming; and two kinds of
characters, the blank ones and the digits.
-/

namespace SourceChange.Text

/-- Splits a text at the first occurrence of a pattern: what precedes it and what follows it. -/
def cut? (pat : List Char) : List Char → Option (List Char × List Char)
  | [] => if pat.isEmpty then some ([], []) else none
  | c :: cs =>
    if pat.isPrefixOf (c :: cs) then some ([], (c :: cs).drop pat.length)
    else (cut? pat cs).map fun (u, v) => (c :: u, v)

/-- Whether a pattern occurs in a text. -/
def occursIn (pat cs : List Char) : Bool := (cut? pat cs).isSome

/-- Drops characters of a class from the end. -/
def dropEndWhile (p : Char → Bool) (cs : List Char) : List Char :=
  (cs.reverse.dropWhile p).reverse

/-- Drops characters of a class from both ends. -/
def trim (p : Char → Bool) (cs : List Char) : List Char := dropEndWhile p (cs.dropWhile p)

/-- Joins texts with a separator between them. -/
def joinWith (sep : List Char) : List (List Char) → List Char
  | [] => []
  | [x] => x
  | x :: y :: rest => x ++ sep ++ joinWith sep (y :: rest)

/-- Splits a text at every occurrence of a character. -/
def splitOnChar (sep : Char) : List Char → List (List Char)
  | [] => [[]]
  | c :: cs =>
    match splitOnChar sep cs with
    | [] => [[]]
    | w :: ws => if c == sep then [] :: w :: ws else (c :: w) :: ws

/-- Whether a text ends with the given characters. -/
def endsWith (suf cs : List Char) : Bool := suf.reverse.isPrefixOf cs.reverse

/-- Joins strings with a separator between them. -/
def join (sep : String) (xs : List String) : String := sep.intercalate xs

/-- Whether a string starts with another. -/
def hasStart (s pre : String) : Bool := pre.toList.isPrefixOf s.toList

/-- Whether a string ends with another. -/
def hasEnd (s suf : String) : Bool := endsWith suf.toList s.toList

/-- The first characters of a string. -/
def takeFirst (n : Nat) (s : String) : String := String.ofList (s.toList.take n)

/-- Lexicographic order of strings by code point. -/
def le (a b : String) : Bool := !(b < a)

/-- Strings in the order of their code points. -/
def sorted (xs : List String) : List String := xs.mergeSort le

/-! ### Blank characters of all scripts, and trimming and splitting into words -/

/-- White space, the separators of files, groups, records and units included. -/
def isBlank (c : Char) : Bool :=
  let n := c.toNat
  (0x09 ≤ n && n ≤ 0x0D) || (0x1C ≤ n && n ≤ 0x20) || n == 0x85 || n == 0xA0 || n == 0x1680
    || (0x2000 ≤ n && n ≤ 0x200A) || n == 0x2028 || n == 0x2029 || n == 0x202F || n == 0x205F
    || n == 0x3000

/-- A text without blanks at its ends. -/
def strip (cs : List Char) : List Char := trim isBlank cs

/-- A text without blanks at its start. -/
def stripStart (cs : List Char) : List Char := cs.dropWhile isBlank

/-- A text without blanks at its end. -/
def stripEnd (cs : List Char) : List Char := dropEndWhile isBlank cs

/-- The maximal runs of characters that are not blank. -/
def words : List Char → List (List Char)
  | [] => []
  | c :: cs =>
    if isBlank c then words cs
    else
      match cs with
      | [] => [[c]]
      | d :: _ =>
        if isBlank d then [c] :: words cs
        else
          match words cs with
          | [] => [[c]]
          | w :: ws => (c :: w) :: ws

/-- The words of a text with single spaces between them. -/
def oneLine (cs : List Char) : List Char := joinWith [' '] (words cs)

/-- A string without blanks at its ends. -/
def stripped (s : String) : String := String.ofList (strip s.toList)

/-- A string on one line, with single spaces between its words. -/
def flattened (s : String) : String := String.ofList (oneLine s.toList)

/-- Whether a string has nothing but blanks. -/
def isBlankText (s : String) : Bool := s.toList.all isBlank

/-! ### Character classes given by ranges

A class is written as an increasing list of code points at which membership changes: the first one
starts a range, the next one ends it, and so on. The decimal digits of a script are ten in a row.
-/

/-- Whether `n` lies in one of the ranges `[a, b)` that a list of bounds spells out. -/
def inRanges (n : Nat) : List Nat → Bool
  | [] => false
  | [a] => a ≤ n
  | a :: b :: rest => if n < a then false else n < b || inRanges n rest

/-- The zeros beyond ASCII; nine more digits follow each of them. -/
def zeros : List Nat :=
  [0x660, 0x6f0, 0x7c0, 0x966, 0x9e6, 0xa66, 0xae6, 0xb66, 0xbe6, 0xc66, 0xce6, 0xd66, 0xde6,
   0xe50, 0xed0, 0xf20, 0x1040, 0x1090, 0x17e0, 0x1810, 0x1946, 0x19d0, 0x1a80, 0x1a90, 0x1b50,
   0x1bb0, 0x1c40, 0x1c50, 0xa620, 0xa8d0, 0xa900, 0xa9d0, 0xa9f0, 0xaa50, 0xabf0, 0xff10,
   0x104a0, 0x10d30, 0x11066, 0x110f0, 0x11136, 0x111d0, 0x112f0, 0x11450, 0x114d0, 0x11650,
   0x116c0, 0x11730, 0x118e0, 0x11950, 0x11c50, 0x11d50, 0x11da0, 0x16a60, 0x16ac0, 0x16b50,
   0x1d7ce, 0x1d7d8, 0x1d7e2, 0x1d7ec, 0x1d7f6, 0x1e140, 0x1e2f0, 0x1e950, 0x1fbf0]

/-- The value of a decimal digit of any script. -/
def digitValue? (c : Char) : Option Nat :=
  if c.toNat < 128 then if c.isDigit then some (c.toNat - 0x30) else none
  else
    (zeros.find? fun z => z ≤ c.toNat && c.toNat < z + 10).map (c.toNat - ·)

end SourceChange.Text
