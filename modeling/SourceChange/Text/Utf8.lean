import SourceChange.Text.Quoted

/-!
Where bytes stop being text in UTF-8, and why.
-/

namespace SourceChange.Text

/-- Why bytes are no text. -/
inductive Utf8Reason where
  | badStart
  | badContinuation
  | earlyEnd
  deriving DecidableEq, Repr

/-- A run of bytes that is no character: where it starts, how long it is, and its first byte. -/
structure Utf8Fault where
  start : Nat
  length : Nat
  first : UInt8
  reason : Utf8Reason
  deriving DecidableEq, Repr

/-- How many bytes follow the first byte of a character. -/
def followers? (lead : UInt8) : Option Nat :=
  if lead < 0x80 then some 0
  else if lead < 0xC2 then none
  else if lead < 0xE0 then some 1
  else if lead < 0xF0 then some 2
  else if lead < 0xF5 then some 3
  else none

/-- Whether a byte continues a character. -/
def isContinuation (b : UInt8) : Bool := 0x80 ≤ b && b < 0xC0

/-- Whether a byte can follow the first one of a character. Longer forms than needed, surrogates and numbers
that are too large are none. -/
def fitsAfter (lead b : UInt8) : Bool :=
  isContinuation b &&
    if lead == 0xE0 then 0xA0 ≤ b
    else if lead == 0xED then b < 0xA0
    else if lead == 0xF0 then 0x90 ≤ b
    else if lead == 0xF4 then b < 0x90
    else true

/-- How many of the bytes that have to follow the first one do. -/
def followersIn (lead : UInt8) (n : Nat) (rest : List UInt8) : Nat :=
  match rest.take n with
  | [] => 0
  | b :: bs => if fitsAfter lead b then 1 + (bs.takeWhile isContinuation).length else 0

/-- The first run of bytes that is no character. `skip` bytes still belong to the character before. -/
def utf8FaultFrom? (start skip : Nat) : List UInt8 → Option Utf8Fault
  | [] => none
  | b :: rest =>
    match skip with
    | k + 1 => utf8FaultFrom? (start + 1) k rest
    | 0 =>
      match followers? b with
      | none => some ⟨start, 1, b, .badStart⟩
      | some n =>
        let k := followersIn b n rest
        if k == n then utf8FaultFrom? (start + 1) n rest
        else some ⟨start, k + 1, b, if rest.length == k then .earlyEnd else .badContinuation⟩

/-- The first run of bytes that is no character, if bytes are no text. -/
def utf8Fault? (bytes : List UInt8) : Option Utf8Fault := utf8FaultFrom? 0 0 bytes

namespace Utf8Reason

/-- The wording of a reason. -/
def message : Utf8Reason → String
  | badStart => "invalid start byte"
  | badContinuation => "invalid continuation byte"
  | earlyEnd => "unexpected end of data"

end Utf8Reason

namespace Utf8Fault

/-- The wording of a fault. -/
def message (f : Utf8Fault) : String :=
  let place :=
    if f.length == 1 then
      "byte 0x" ++ String.ofList (hex 2 f.first.toNat) ++ " in position " ++ toString f.start
    else "bytes in position " ++ toString f.start ++ "-" ++ toString (f.start + f.length - 1)
  "'utf-8' codec can't decode " ++ place ++ ": " ++ f.reason.message

end Utf8Fault

end SourceChange.Text
