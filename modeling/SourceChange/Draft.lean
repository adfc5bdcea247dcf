import SourceChange.Source.Cache

/-!
A file while operations change it.

Every stage of an operation reads the tree of the draft as it stands, computes edits against that tree
and goes on with the edited text.
-/

namespace SourceChange

open Source

/-- A file while operations change it. -/
structure Draft where
  path : String
  language : Language
  text : String
  deriving Repr

/-- What an operation makes of a draft. -/
structure Outcome where
  text : String
  /-- Further files, by path. -/
  created : List (String × String)
  warnings : List String
  summary : String
  deriving Repr

namespace Outcome

/-- An outcome with no further files and no warnings. -/
def plain (text summary : String) : Outcome := ⟨text, [], [], summary⟩

end Outcome

namespace Draft

/-- The tree of a draft, which has to be free of syntax errors. -/
def tree (d : Draft) : Reading Tree := do
  let t ← Reading.lenientFile d.path d.language d.text
  if t.hasErrors then throw .runningTextBroken else return t

/-- The draft with another text. -/
def advance (d : Draft) (text : String) : Draft := { d with text }

end Draft

/-- The text of a tree after edits that were computed against it. -/
def Source.Tree.edited (t : Tree) (edits : List Edit) : Except Failure String :=
  Edit.applyAll t.text edits

end SourceChange
