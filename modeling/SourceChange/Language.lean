import SourceChange.Path
import SourceChange.Syntax.Grammar

/-!
The language of a file, chosen by the extension of its path.
-/

namespace SourceChange

open Syntax (Grammar)

/-- What a file is read as. -/
inductive Language where
  | tsx
  | typescript
  | plaintext
  deriving DecidableEq, Repr

namespace Language

/-- The public name of a language. -/
def name : Language → String
  | tsx => "tsx"
  | typescript => "typescript"
  | plaintext => "plaintext"

/-- The grammar of a language; plain text has none. -/
def grammar? : Language → Option Grammar
  | tsx => some .tsx
  | typescript => some .typescript
  | plaintext => none

/-- The language of a file. -/
def ofPath (path : String) : Language :=
  let suffix := Text.lower (Path.suffix path)
  if [".tsx", ".jsx", ".js", ".mjs", ".cjs"].contains suffix then tsx
  else if [".ts", ".mts", ".cts"].contains suffix then typescript
  else plaintext

/-- Whether a file takes type annotations. -/
def isTyped (path : String) : Bool :=
  [".tsx", ".ts", ".mts", ".cts"].any (Text.hasEnd (Text.lower path))

end Language

end SourceChange
