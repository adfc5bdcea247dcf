import SourceChange.Syntax.Grammar.Statements

/-!
The two grammars: TSX, which has elements, and TypeScript, which has type assertions instead.

`Grammar.parse?` reads a whole text. It yields the root of the syntax tree, or nothing if the text has
a syntax error.
-/

namespace SourceChange.Syntax

/-- The languages with a grammar. -/
inductive Grammar where
  | tsx
  | typescript
  deriving DecidableEq, Repr

namespace Grammar

/-- The rule for a goal. -/
def rule (g : Rules) : Goal → Parse Node
  | .statement => g.statementRule
  | .block place => g.blockRule place
  | .exportation => g.exportRule
  | .operand pending => g.operandRule pending
  | .sequence => g.sequenceRule
  | .pattern => g.patternRule
  | .type pending => g.typeRule pending
  | .element inner => g.elementRule inner

/-- Reads a goal, with rules nested at most `depth` times. -/
def run (elements : Bool) : Nat → Goal → Parse Node
  | 0, _ => failure
  | depth + 1, goal => rule ⟨elements, run elements depth⟩ goal

/-- How deep the rules can nest in a text of the given length: every level but a few takes at least
one character. -/
def depthFor (length : Nat) : Nat := 16 * length + 64

/-- Puts comments where they stand in the tree. -/
def withComments (root : Node) (comments : List Node) : Node :=
  comments.foldr Node.insert root

/-- The line that names the interpreter of a script. -/
def hashBang : Parse Node :=
  Parse.leaf Construct.hashBangLine fun
    | '#' :: '!' :: r => some ('#' :: '!' :: r.takeWhile (· != '\n'), r.dropWhile (· != '\n'))
    | _ => none

/-- The statements of a whole text. -/
def statements (elements : Bool) (depth : Nat) : Parse (List Node) := do
  let first ← Parse.opt1 hashBang
  let body ← Parse.many1 (run elements depth .statement)
  return first ++ body

/-- The syntax tree of a text, if it has no syntax error. -/
def parse? (grammar : Grammar) (text : List Char) : Option Node :=
  match statements (grammar == .tsx) (depthFor text.length) (Cursor.ofChars text) with
  | some (body, c) =>
    let c' := c.skip
    if c'.rest.isEmpty then
      let starts := (body ++ c'.comments).map Node.start
      let first := starts.foldl min (byteSize text)
      some (withComments (.mk Construct.program none ⟨first, byteSize text⟩ body) c'.comments)
    else none
  | none => none

end Grammar

end SourceChange.Syntax
