import SourceChange.Text.Basic
import SourceChange.Text.Case
import SourceChange.Text.Quoted

/-!
Describing the places where a text departs from the grammar.
-/

namespace SourceChange.Source

/-- A place where a text departs from the grammar; line and column count from one. -/
structure Problem where
  line : Int
  column : Int
  /-- The text at that place. -/
  text : String
  /-- What was read there: an error, or `MISSING` and the token that should have stood there. -/
  reading : String
  deriving DecidableEq, Repr

namespace Problem

/-- A text of at most forty characters. -/
def snippet (s : String) : String :=
  if s.length ≤ 40 then s else Text.takeFirst 37 s ++ "..."

/-- A problem in words, without its place. -/
def describe (p : Problem) : String :=
  if Text.hasStart p.reading "MISSING" then Text.lower p.reading
  else "unexpected " ++ Text.quote (snippet p.text)

/-- The place of a problem. -/
def location (p : Problem) : String :=
  "line " ++ toString p.line ++ ", column " ++ toString p.column

/-- A number, or the word for none. -/
def shownNumber : Option Int → String
  | some n => toString n
  | none => "None"

/-- A message with a place, where the line is known. -/
def messageAt (message : String) (line column : Option Int) : String :=
  match line with
  | none => message
  | some l =>
    message ++ " (line " ++ toString l ++ ", column " ++ shownNumber column ++ ")"

end Problem

end SourceChange.Source
