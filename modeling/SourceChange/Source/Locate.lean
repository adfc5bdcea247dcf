import SourceChange.Source.Element
import SourceChange.Source.Function

/-!
Finding the target of a change. The first match in document order is the target; where there is none,
the failure says what there is instead.
-/

namespace SourceChange.Source

namespace Tree

/-- The names of the tags in a module, each once, sorted; fragments have none. -/
def tagNames (t : Tree) : List String :=
  Text.sorted ((t.elements.map (·.tag)).filter (· != "")).eraseDups

/-- The first element with the given tag. -/
def element (t : Tree) (tag : String) : Except Failure Element :=
  match t.elements.find? (·.tag == tag) with
  | some e => .ok e
  | none => .error (.elementNotFound tag t.tagNames)

/-- The function with the given name, or the main component. -/
def component (t : Tree) (name : Option String) : Except Failure Function :=
  match t.component? name with
  | some f => .ok f
  | none =>
    let descriptor := name.getD ""
    .error (.functionNotFound (if descriptor == "" then "component function" else descriptor))

end Tree

/-- The number of characters before the first occurrence of a text. -/
def locateText (haystack pattern : String) : Except Failure Nat :=
  match Text.cut? pattern.toList haystack.toList with
  | some (before, _) => .ok before.length
  | none => .error (.textNotFound pattern)

end SourceChange.Source
