import SourceChange.Path
import SourceChange.Text.Basic
import SourceChange.Text.Letter

/-!
What a change set may name, and what somebody should look at before it is accepted.

Paths are relative ones that stay below the directory they are relative to and are made of plain characters.
There are notes on content that looks dangerous.
-/

namespace SourceChange.Safety

/-- The characters of plain paths; brackets, parentheses and `@` stand in the names of routes. -/
def isPathChar (c : Char) : Bool := c.isAlphanum || "_./-[]()@+".toList.contains c

/-- Whether a path in normal form leads upwards. -/
def leadsUp (p : String) : Bool := p == ".." || Text.hasStart p "../"

/-- Whether a text is made of plain characters; a line feed may follow them. -/
def isPlain (p : String) : Bool :=
  let cs := p.toList
  let body := if cs.getLast? == some '\n' then cs.dropLast else cs
  !body.isEmpty && body.all isPathChar

/-- Whether a change set may name a path. -/
def isSafePath (p : String) : Bool :=
  let normal := Path.normalize p
  p != "" && !leadsUp normal && !Path.isAbsolute normal && isPlain normal

/-- What follows a word at the start of a text. -/
def afterWord? (word : String) (cs : List Char) : Option (List Char) :=
  if word.toList.isPrefixOf cs then some (cs.drop word.length) else none

/-- Whether a text goes on with an opening parenthesis, after any blanks. -/
def opensCall (cs : List Char) : Bool := (Text.stripStart cs).head? == some '('

/-- Whether a text starts with a call of the given name. -/
def startsCall (name : String) (cs : List Char) : Bool := (afterWord? name cs).any opensCall

/-- Whether a text starts with `new Function(`, whatever blanks it has. -/
def startsNewFunction (cs : List Char) : Bool :=
  (afterWord? "new" cs).any fun rest =>
    (rest.head?.map Text.isBlank).getD false && startsCall "Function" (Text.stripStart rest)

/-- Whether a test that sees a text and the character before it succeeds at some place. -/
def anywhere (test : Option Char → List Char → Bool) (before : Option Char) : List Char → Bool
  | [] => test before []
  | c :: cs => test before (c :: cs) || anywhere test (some c) cs

/-- Whether a word occurs in a text. -/
def mentions (word : String) (cs : List Char) : Bool := Text.occursIn word.toList cs

/-- Whether a call of the given name occurs in a text. -/
def calls (name : String) (cs : List Char) : Bool := anywhere (fun _ => startsCall name) none cs

/-- Whether a call occurs in which no letter, digit or underscore precedes the name. -/
def callsWord (name : String) (cs : List Char) : Bool :=
  anywhere (fun before rest => !(before.map Text.isWordChar).getD false && startsCall name rest)
    none cs

/-- What is looked for, and the note on it. -/
def patterns : List ((List Char → Bool) × String) :=
  [(fun cs => cs.contains '\x00', "Content contains null bytes"),
   (mentions "dangerouslySetInnerHTML", "Uses dangerouslySetInnerHTML"),
   (callsWord "eval", "Detected eval() usage"),
   (anywhere (fun _ => startsNewFunction) none, "Detected new Function() usage"),
   (mentions "javascript:", "Detected javascript: URL"),
   (calls "document.write", "Detected document.write() usage")]

/-- The notes on a content. -/
def notes (content : String) : List String :=
  (patterns.filter fun p => p.1 content.toList).map (·.2)

end SourceChange.Safety
