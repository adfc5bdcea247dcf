import SourceChange.Draft
import SourceChange.Operation.Basic
import SourceChange.Source.Locate
import SourceChange.Text.Indent

/-!
Changing the text of a file at the first occurrence of a pattern, or at its end.
-/

namespace SourceChange

namespace Text

/-- A text on one line, shortened to the given number of characters. -/
def preview (limit : Int) (s : String) : String :=
  let flat := oneLine s.toList
  let kept := if limit < 3 then flat.length - (3 - limit).toNat else (limit - 3).toNat
  String.ofList (if flat.length ≤ limit then flat else flat.take kept ++ ['.', '.', '.'])

end Text

namespace TextChange

/-- A text with a line feed at its start, unless it is empty. -/
def withNewlineBefore (s : String) : String :=
  if s == "" || Text.hasStart s "\n" then s else "\n" ++ s

/-- Appends to a text, on a new line. -/
def appended (text content : String) : String :=
  if text == "" || Text.hasEnd text "\n" || Text.hasStart content "\n" then text ++ content
  else text ++ "\n" ++ content

/-- The text before and after the first occurrence of a pattern. -/
def around (text pattern : String) : Except Failure (String × String) :=
  match Text.cut? pattern.toList text.toList with
  | some (u, v) => .ok (String.ofList u, String.ofList v)
  | none => .error (.textNotFound pattern)

/-- A text after a change. -/
def applied (text : String) : TextChange → Except Failure String
  | insertBefore pattern content => do
    let (u, v) ← around text pattern
    return u ++ Text.withFinalNewline content ++ pattern ++ v
  | insertAfter pattern content => do
    let (u, v) ← around text pattern
    return u ++ pattern ++ withNewlineBefore content ++ v
  | replace pattern replacement => do
    let (u, v) ← around text pattern
    return u ++ replacement ++ v
  | delete pattern => do
    let (u, v) ← around text pattern
    return u ++ v
  | append content => .ok (appended text content)

/-- A pattern as summaries show it. -/
def shownPattern (pattern : String) : String := Text.quote (Text.preview 40 pattern)

/-- What a change does, in words. -/
def summary : TextChange → String
  | insertBefore pattern _ => "Inserted before " ++ shownPattern pattern
  | insertAfter pattern _ => "Inserted after " ++ shownPattern pattern
  | replace pattern _ => "Replaced " ++ shownPattern pattern
  | delete pattern => "Deleted " ++ shownPattern pattern
  | append _ => "Appended content"

/-- Applies a change to a draft. -/
def apply (d : Draft) (change : TextChange) : Except Failure Outcome := do
  let text ← change.applied d.text
  return .plain text change.summary

end TextChange

end SourceChange
