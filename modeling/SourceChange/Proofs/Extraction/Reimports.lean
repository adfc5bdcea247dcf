import Mathlib.Data.List.Induction
import Mathlib.Data.List.Nodup
import SourceChange.Proofs.Extraction.Outcome
import SourceChange.Proofs.Groups
import SourceChange.Proofs.Import.Additions

/-!
The imports of the file that an extraction creates.

The markup needs the names that it uses and the old file imports. They are collected by the module they
come from, seen from the new file, and each module has room for one default binding: of several the last
one stays. React is imported besides, unless a default binding whose name starts so is imported anyway.
-/

namespace SourceChange.Extraction

open Source Syntax Syntax.Node
open scoped List

/-- A name that a file imports, and the module from which it does so. -/
structure Imported where
  source : String
  name : ImportedName
  deriving DecidableEq

namespace Imported

def localName (x : Imported) : String := x.name.localName

end Imported

/-- An import statement. -/
structure Statement where
  source : String
  names : List ImportedName

namespace Statement

/-- The names with a form. -/
def having (s : Statement) (form : ImportForm) : List ImportedName := s.names.filter (·.form == form)

/-- The written form of a statement. -/
def text (s : Statement) : String :=
  let named := (s.having .named).map (·.entry)
  let clause := (s.having .default).map (·.localName) ++
    (s.having .namespace).map ("* as " ++ ·.localName) ++
    (if named.isEmpty then [] else [Import.braces named])
  "import " ++ Text.join ", " clause ++ " from '" ++ s.source ++ "';"

/-- What a statement imports. -/
def imported (s : Statement) : List Imported := s.names.map (⟨s.source, ·⟩)

end Statement

example : Statement.text ⟨"./a", [⟨"A", none, .default⟩, ⟨"b", none, .named⟩, ⟨"c", some "d", .named⟩]⟩ =
    "import A, \x7b b, c as d \x7d from './a';" := by
  decide +kernel

section Collect

variable {xs : List Imported} {x : Imported} {source : String}

/-- The bindings of whole modules, each a statement of its own. -/
def wholes (xs : List Imported) : List Imported := xs.filter (·.name.form == .namespace)

/-- The modules of the other bindings, each once. -/
def sources (xs : List Imported) : List String :=
  ((xs.filter (·.name.form != .namespace)).map (·.source)).eraseDups

/-- The bindings from one module with a form. -/
def bindings (xs : List Imported) (form : ImportForm) (source : String) : List Imported :=
  xs.filter fun x => x.name.form == form && x.source == source

/-- What the statement of a module imports: the last default binding and all in braces. -/
def chosen (xs : List Imported) (source : String) : List Imported :=
  (bindings xs .default source).getLast?.toList ++ bindings xs .named source

/-- The names that are imported in the end. -/
def kept (xs : List Imported) : List Imported := wholes xs ++ (sources xs).flatMap (chosen xs)

/-- The last member of a list without repetitions. -/
theorem getLast?_eq_some_iff {l : List Imported} (hnodup : l.Nodup) :
    l.getLast? = some x ↔ x ∈ l ∧ ∀ y, ¬ [x, y] <+ l := by
  obtain rfl | ⟨front, z, rfl⟩ := List.eq_nil_or_concat' l
  · simp
  · obtain ⟨-, -, hz⟩ := List.nodup_append.mp hnodup
    rw [List.getLast?_concat, Option.some.injEq]
    constructor
    · rintro rfl
      refine ⟨by simp, fun y hy => ?_⟩
      obtain ⟨before, after, heq, hbefore, hafter⟩ := List.sublist_append_iff.mp hy
      cases before with
      | nil =>
        rw [List.nil_append] at heq
        exact absurd hafter.length_le (by simp [← heq])
      | cons z rest =>
        obtain ⟨rfl, -⟩ := List.cons.inj heq
        exact hz _ (hbefore.subset List.mem_cons_self) _ (List.mem_singleton_self _) rfl
    · rintro ⟨hx, hlast⟩
      obtain hx | hx := List.mem_append.mp hx
      · exact absurd ((List.singleton_sublist.mpr hx).append (List.Sublist.refl [z])) (hlast z)
      · exact (List.mem_singleton.mp hx).symm

/-- The statements that import what is collected. -/
def statements (xs : List Imported) : List Statement :=
  (wholes xs).map (fun x => ⟨x.source, [x.name]⟩) ++
    (sources xs).map fun source => ⟨source, (chosen xs source).map (·.name)⟩

end Collect

section React

variable {s : Statement}

end React

section Main

variable {xs : List Imported} {react : Bool}

variable {d : Draft} {e : Extraction} {r : Source.Reader} {o : Outcome}

end Main

end SourceChange.Extraction
