import SourceChange.Text.Basic
import SourceChange.Text.Letter

/-!
The names that requests may use. A name may be followed by one line feed.
-/

namespace SourceChange

/-- Characters that a name can start with. -/
def isNameStart (c : Char) : Bool := c.isAlpha || c == '_' || c == '$'

/-- Characters that a name can go on with. -/
def isNamePart (c : Char) : Bool := Text.isWordChar c || c == '$'

/-- Names of variables, exactly. -/
def isBareName : List Char → Bool
  | [] => false
  | c :: cs => isNameStart c && cs.all isNamePart

/-- Names of elements and attributes, exactly: dots divide them, and hyphens may occur before the
first dot. -/
def isBareElementName (cs : List Char) : Bool :=
  match Text.splitOnChar '.' cs with
  | [] => false
  | first :: rest =>
    (match first with
      | [] => false
      | c :: cs => isNameStart c && cs.all fun d => isNamePart d || d == '-')
      && rest.all isBareName

/-- Whether a text, or the text before a line feed at its end, is of the given form. -/
def upToNewline (form : List Char → Bool) (s : String) : Bool :=
  let cs := s.toList
  form cs || (cs.getLast? == some '\n' && form cs.dropLast)

/-- Names of variables. -/
def isIdentifier : String → Bool := upToNewline isBareName

/-- Names of elements and attributes. -/
def isElementName : String → Bool := upToNewline isBareElementName

/-- What may stand in the braces of an import: a name, or a name and its alias. -/
def isImportEntry (s : String) : Bool :=
  match Text.words s.toList with
  | [name] => isBareName name
  | [name, as, newName] => isBareName name && as == ['a', 's'] && isBareName newName
  | _ => false

end SourceChange
