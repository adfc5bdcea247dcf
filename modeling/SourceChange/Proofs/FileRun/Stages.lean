import SourceChange.FileRun
import SourceChange.Proofs.Reading

/-!
How the run of a file change ends.

A change opens the text it starts from (`Begins`), carries its operations out one after the other
(`Carried`) and has the result checked (`Passes`). If all of that goes well it is carried out; otherwise
`Blames` says what it fails with, and which operation is at fault. Every run ends in one of the two ways.
-/

namespace SourceChange

open Source Syntax

/-- Whether the grammar of a language accepts a text; plain text is always accepted. -/
def Language.Accepts (l : Language) (text : String) : Prop :=
  ∀ g, l.grammar? = some g → (g.parse? text.toList).isSome = true

/-- A tree that is read from a text has no errors exactly if the grammar accepts the text. -/
theorem Source.Tree.build_hasErrors_eq_false (version : Nat) (l : Language) (text : String) :
    (Tree.build version l text.toList).hasErrors = false ↔ l.Accepts text := by
  unfold Tree.build Tree.hasErrors Language.Accepts
  cases hg : l.grammar? with
  | none => simp
  | some g => cases hparse : g.parse? text.toList <;> simp [hparse]

/-- Failures that no check raises: an interruption from outside, and an edit that cuts a character. -/
def Failure.isForeign : Failure → Bool
  | .unexpected _ | .cutCharacter => true
  | _ => false

theorem Failure.kind_of_isForeign {e : Failure} (h : e.isForeign = true) :
    e.kind = .internalError := by
  cases e <;> first | rfl | cases h

namespace FileChange

/-- The text that a change starts from, if its path is as its action needs it. -/
def input (c : FileChange) (start : Option String) : String :=
  if c.action = .create then c.content.getD "" else start.getD ""

/-- A text that is read at the start, with its redeclarations; plain text is not read. -/
inductive Opens (c : FileChange) (text : String) (r : Reader) : Option (List String) → Reader → Prop where
  | plain (hplain : c.language = .plaintext) : Opens c text r none r
  | parsed (hlanguage : c.language ≠ .plaintext)
      (hclean : (r.fileTree c.path c.language text).1.hasErrors = false) :
      Opens c text r (some (r.fileTree c.path c.language text).1.redeclarations)
        (r.fileTree c.path c.language text).2

/-- A change gets as far as its operations. -/
structure Begins (c : FileChange) (start : Option String) (r : Reader)
    (before : Option (List String)) (r₁ : Reader) : Prop where
  payload : c.payloadError = none
  action : c.action ≠ .delete
  presence : c.action = .create ↔ start = none
  opens : c.Opens (c.input start) r before r₁

/-- What the first operations of a change have made of the text that it starts from. Each one was
applied to what the one before it left, and created no file whose path was taken. -/
inductive Carried (c : FileChange) (mode : RunMode) (reserved : List String) (text : String)
    (r₁ : Reader) : Nat → Progress → Reader → Prop where
  | start : Carried c mode reserved text r₁ 0 ⟨text, [], [], []⟩ r₁
  | next {n : Nat} {p : Progress} {r r' : Reader} {op : Operation} {o : Outcome}
      (hbefore : Carried c mode reserved text r₁ n p r)
      (hop : c.operations[n]? = some op)
      (hcalm : mode.interruption n = none)
      (happly : (op.apply ⟨c.path, c.language, p.text⟩).on r = (.ok o, r'))
      (hfree : ∀ f ∈ o.created, f.1 ∉ reserved ∧ f.1 ∉ p.created.map Prod.fst) :
      Carried c mode reserved text r₁ (n + 1)
        ⟨o.text, p.created ++ o.created, p.warnings ++ o.warnings.map fun m => ⟨c.path, some n, m⟩,
          p.summaries ++ [o.summary]⟩ r'

/-- An operation fails after all before it were carried out. -/
inductive Breaks (c : FileChange) (mode : RunMode) (reserved : List String) (text : String)
    (r₁ : Reader) : Nat → Failure → Prop where
  | interrupted {n : Nat} {p : Progress} {r : Reader} {op : Operation} {message : String}
      (hbefore : Carried c mode reserved text r₁ n p r)
      (hop : c.operations[n]? = some op)
      (hbroken : mode.interruption n = some message) :
      Breaks c mode reserved text r₁ n (.unexpected message)
  | refused {n : Nat} {p : Progress} {r r' : Reader} {op : Operation} {e : Failure}
      (hbefore : Carried c mode reserved text r₁ n p r)
      (hop : c.operations[n]? = some op)
      (hcalm : mode.interruption n = none)
      (happly : (op.apply ⟨c.path, c.language, p.text⟩).on r = (.error e, r')) :
      Breaks c mode reserved text r₁ n e
  | taken {n : Nat} {p : Progress} {r r' : Reader} {op : Operation} {o : Outcome}
      {f : String × String}
      (hbefore : Carried c mode reserved text r₁ n p r)
      (hop : c.operations[n]? = some op)
      (hcalm : mode.interruption n = none)
      (happly : (op.apply ⟨c.path, c.language, p.text⟩).on r = (.ok o, r'))
      (hfile : f ∈ o.created) (htaken : f.1 ∈ reserved ∨ f.1 ∈ p.created.map Prod.fst) :
      Breaks c mode reserved text r₁ n (.createdExists f.1)

/-- A result is free of syntax errors and, where that is asked for, redeclares no name more often than
the text that the change started from. -/
def ResultPasses (c : FileChange) (mode : RunMode) (before : Option (List String)) (text : String)
    (r : Reader) : Prop :=
  c.language ≠ .plaintext →
    (r.fileTree c.path c.language text).1.hasErrors = false ∧
      (mode.validateBindings = true → ∀ names, before = some names → ∀ n,
        (r.fileTree c.path c.language text).1.redeclarations.count n ≤ names.count n)

/-- What operations have produced stands the final checks. -/
structure Passes (c : FileChange) (mode : RunMode) (before : Option (List String)) (p : Progress)
    (r : Reader) : Prop where
  result : c.ResultPasses mode before p.text r
  created : ∀ f ∈ p.created, (Language.ofPath f.1).Accepts f.2

/-- A change gets to its operations, all of them are carried out, and what they have produced stands
the final checks. -/
def Completes (c : FileChange) (mode : RunMode) (start : Option String) (reserved : List String)
    (r : Reader) (p : Progress) : Prop :=
  ∃ before r₁ r₂, c.Begins start r before r₁ ∧
    c.Carried mode reserved (c.input start) r₁ c.operations.length p r₂ ∧ c.Passes mode before p r₂

/-- What a change that is not carried out fails with, and the place of the operation at fault. Neither
its path nor a text that breaks the rules is the fault of an operation. -/
inductive Blames (c : FileChange) (mode : RunMode) (start : Option String) (reserved : List String)
    (r : Reader) : Option Nat → Failure → Prop where
  | payload {e : PayloadError} (hpayload : c.payloadError = some e) :
      Blames c mode start reserved r (some e.index) (.payload e.fault)
  | deletion (hpayload : c.payloadError = none) (haction : c.action = .delete)
      (hoperations : c.operations ≠ []) :
      Blames c mode start reserved r (some 0) .deleteWithOperations
  | present (hpayload : c.payloadError = none) (haction : c.action = .create)
      (hstart : start ≠ none) :
      Blames c mode start reserved r none (.fileExists c.path)
  | absent (hpayload : c.payloadError = none) (hdelete : c.action = .delete → c.operations = [])
      (haction : c.action ≠ .create) (hstart : start = none) :
      Blames c mode start reserved r none (.fileMissing c.path)
  | unreadable (hpayload : c.payloadError = none) (haction : c.action ≠ .delete)
      (hpresence : c.action = .create ↔ start = none) (hlanguage : c.language ≠ .plaintext)
      (herrors : (r.fileTree c.path c.language (c.input start)).1.hasErrors = true) :
      Blames c mode start reserved r none .syntaxError
  | operation {before : Option (List String)} {r₁ : Reader} {n : Nat} {e : Failure}
      (hbegins : c.Begins start r before r₁)
      (hbreaks : c.Breaks mode reserved (c.input start) r₁ n e) :
      Blames c mode start reserved r (some n) e
  | result {before : Option (List String)} {r₁ r₂ : Reader} {p : Progress} {e : Failure}
      (hbegins : c.Begins start r before r₁)
      (hcarried : c.Carried mode reserved (c.input start) r₁ c.operations.length p r₂)
      (hfails : ¬ c.Passes mode before p r₂)
      (hcheck : ((c.checkAll mode before p).on r₂).1 = .error e)
      (hkind : e.kind = .postconditionViolated) :
      Blames c mode start reserved r none e

end FileChange

end SourceChange
