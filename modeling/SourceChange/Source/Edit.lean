import SourceChange.Failure

/-!
Edits of a text, as replacements of ranges of bytes.

`Edit.applyAll` applies a list of edits that all refer to the same text. They may come in any order but
must not overlap; insertions at the same offset keep their order.
-/

namespace SourceChange.Source

/-- Replaces the bytes from `start` up to `stop`; where the two are equal, it inserts. -/
structure Edit where
  start : Nat
  stop : Nat
  replacement : String
  deriving DecidableEq, Repr

/-- The bytes of a text. -/
def utf8 (s : String) : List UInt8 := s.toUTF8.toList

/-- The text with the given bytes, if they encode one. -/
def ofUtf8? (bytes : List UInt8) : Option String := String.fromUTF8? ⟨bytes.toArray⟩

/-- The text with the given bytes. -/
def decode (bytes : List UInt8) : Except Failure String :=
  match ofUtf8? bytes with
  | some s => return s
  | none => throw .cutCharacter

namespace Edit

/-- Inserts a text. -/
def insert (offset : Nat) (text : String) : Edit := ⟨offset, offset, text⟩

/-- Removes a range. -/
def delete (start stop : Nat) : Edit := ⟨start, stop, ""⟩

/-- The order in which edits are applied: by start, then by end. -/
def le (a b : Edit) : Bool := a.start < b.start || (a.start == b.start && a.stop ≤ b.stop)

/-- Applies edits in their order to what follows the first `cursor` bytes. An edit that starts before
the end of the one before it overlaps with that one. -/
def applyFrom (source : List UInt8) (cursor : Nat) : List Edit → Except Failure (List UInt8)
  | [] => .ok (source.drop cursor)
  | e :: es =>
    if e.start < cursor then .error (.overlap e.start e.stop)
    else do
      let rest ← applyFrom source e.stop es
      return (source.take e.start).drop cursor ++ utf8 e.replacement ++ rest

/-- Applies edits to bytes. -/
def applyBytes (source : List UInt8) (edits : List Edit) : Except Failure (List UInt8) :=
  applyFrom source 0 (edits.mergeSort le)

/-- Applies edits to the bytes of a text. -/
def applyEncoded (source : List UInt8) (edits : List Edit) : Except Failure String := do
  decode (← applyBytes source edits)

/-- Applies edits to a text. -/
def applyAll (source : String) (edits : List Edit) : Except Failure String :=
  applyEncoded (utf8 source) edits

end Edit

end SourceChange.Source
