import SourceChange.Advice.Candidate
import SourceChange.Source.Cache
import SourceChange.Source.Call
import SourceChange.Source.Scope

/-!
Advice on which blocks of a file to extract.

How hard a file is to maintain is a score from 0 to 100 for its length, its state, its effects and its
functions.
-/

namespace SourceChange.Advice

open Source Syntax

/-- The calls of a hook in a module. -/
def callsOf (t : Tree) (hook : String) : Nat :=
  (t.rootD.walk.filter fun n => n.is .callExpression && t.calleeName? n == some hook).length

/-- The functions of a module, keywords included. -/
def functionCount (t : Tree) : Nat := (t.rootD.walk.filter isFunction).length

/-- A tenth of the lines, at most 40. -/
def lengthScore (lines : Nat) : Binary64 :=
  if lines < 400 then Binary64.ofRatio false lines 10 else Binary64.ofInt 40

/-- The score of a module with the given number of lines. -/
def score (t : Tree) (lines : Nat) : Binary64 :=
  let parts : List Nat :=
    [min (callsOf t "useState" * 2) 20, min (callsOf t "useEffect" * 3) 20, min (functionCount t) 20]
  parts.foldl (fun s (n : Nat) => s.add (Binary64.ofInt n)) (lengthScore lines)

/-- How complex a block with the given number of lines is. -/
def complexityLabel (lines : Nat) : String :=
  if 50 < lines then "HIGH" else if 25 < lines then "MEDIUM" else "LOW"

/-- A block that could become a component. -/
structure Suggestion where
  path : String
  reason : String
  component : String
  firstLine : Nat
  lastLine : Nat
  complexity : String
  /-- The props that the component would need. -/
  props : List String
  deriving DecidableEq, Repr

namespace Suggestion

/-- A suggestion in words. -/
def message (s : Suggestion) : String :=
  "Consider extracting lines " ++ toString s.firstLine ++ "-" ++ toString s.lastLine ++ " into <" ++
    s.component ++ ">: " ++ s.reason

end Suggestion

/-- What is known about a file. -/
structure Analysis where
  path : String
  lines : Nat
  needsExtraction : Bool
  score : Binary64
  suggestions : List Suggestion
  deriving Repr

/-- The extensions of source files. -/
def sourceExtensions : List String := [".tsx", ".ts", ".jsx", ".js", ".mjs", ".cjs", ".mts", ".cts"]

/-- A file name without the extension of a source file. -/
def withoutExtension (name : List Char) : List Char :=
  match sourceExtensions.find? fun e => Text.endsWith e.toList name with
  | some e => name.take (name.length - e.length)
  | none => name

/-- The stem of a file name; a line feed at its end is kept. -/
def stem (path : String) : String :=
  let name := (Path.fileName path).toList
  String.ofList (if name.getLast? == some '\n' then withoutExtension name.dropLast ++ ['\n']
    else withoutExtension name)

/-- A name for a component: the stem of the file, the base, and from the second on a number. -/
def componentName (path base : String) (index : Nat) : String :=
  let s := stem path
  Text.capitalize (if s == "" then "Component" else s) ++ base ++
    (if index == 0 then "" else toString (index + 1))

/-- The candidates that cover a range that none before them covers. -/
def distinctSpans (seen : List Span) : List Candidate → List Candidate
  | [] => []
  | c :: cs =>
    if seen.contains c.node.span then distinctSpans seen cs
    else c :: distinctSpans (c.node.span :: seen) cs

/-- Candidates, each with the number of those before it that have the same base. -/
def numbered (before : List String) : List Candidate → List (Candidate × Nat)
  | [] => []
  | c :: cs => (c, before.count c.base) :: numbered (c.base :: before) cs

/-- The suggestion for a candidate. -/
def suggestion (t : Tree) (path : String) (c : Candidate) (index : Nat) : Suggestion :=
  let (first, last) := lineSpan t c.node
  let imported := t.imports.flatMap (·.locals)
  { path := path
    reason := c.reason
    component := componentName path c.base index
    firstLine := first
    lastLine := last
    complexity := complexityLabel (last - first + 1)
    props := (t.freeNames c.node).filter fun n => !imported.contains n && !Text.startsUpper n }

/-- The suggestions for a module. -/
def suggestions (t : Tree) (path : String) (limits : Limits) (longFile : Bool) : List Suggestion :=
  (numbered [] (distinctSpans [] (candidates t limits longFile))).map fun (c, index) =>
    suggestion t path c index

/-- Analyses a file. Only TSX files without syntax errors get a score and suggestions. -/
def analyze (limits : Limits) (path content : String) : StateM Reader Analysis := do
  let lines := content.toList.count '\n' + 1
  let long := decide (limits.fileLines < lines)
  let bare : Analysis := ⟨path, lines, long, Binary64.zero, []⟩
  if Language.ofPath path != .tsx then return bare
  let t ← modifyGet fun (r : Reader) => r.fileTree path .tsx content
  if t.hasErrors then return bare
  return { bare with score := score t lines, suggestions := suggestions t path limits long }

/-- Analyses several files, the most complex first. -/
def analyzeAll (limits : Limits) (files : List (String × String)) : StateM Reader (List Analysis) := do
  let all ← files.mapM fun (path, content) => analyze limits path content
  return all.mergeSort fun a b => !a.score.lt b.score

/-- The suggestions for several files. -/
def suggestAll (limits : Limits) (files : List (String × String)) :
    StateM Reader (List Suggestion) := do
  return (← analyzeAll limits files).flatMap (·.suggestions)

/-- Whether a change makes a file too long, or more complex by more than 20 points. -/
def worsens (limits : Limits) (path before after : String) : StateM Reader Bool := do
  let a ← analyze limits path before
  let b ← analyze limits path after
  let crossed := !a.needsExtraction && b.needsExtraction
  return crossed || (Binary64.ofInt 20).lt (b.score.add a.score.neg)

end SourceChange.Advice
