import SourceChange.Json.Value
import SourceChange.Text.Basic

/-!
Why a change cannot be made.

`PayloadFault` lists what can be wrong with a request, `Failure` what can go wrong while it is carried
out. The wording of every failure stands in `Failure.message`, and `Failure.kind` puts each one into
one of the seven kinds that results report.
-/

namespace SourceChange

/-- The kinds of failures that results report. -/
inductive FailureKind where
  | parseError
  | patternNotFound
  | structuralConflict
  | postconditionViolated
  | invalidOperation
  | fileNotFound
  | internalError
  deriving DecidableEq, Repr

namespace FailureKind

/-- The public name of a kind. -/
def name : FailureKind → String
  | parseError => "ParseError"
  | patternNotFound => "PatternNotFound"
  | structuralConflict => "StructuralConflict"
  | postconditionViolated => "PostconditionViolated"
  | invalidOperation => "InvalidOperation"
  | fileNotFound => "FileNotFound"
  | internalError => "InternalError"

end FailureKind

/-- What can be wrong with a request. -/
inductive PayloadFault where
  /-- A field that has to be text or a scalar is something else. -/
  | notScalar (kind : String)
  | notBoolean (kind : String)
  | notList (kind : String)
  | notObject (kind : String)
  /-- A nested object of the named type was expected. -/
  | notRecord (type : String)
  | notRecords (type : String)
  /-- A value is not among the listed ones. -/
  | notOneOf (value : String) (valid : List String)
  | missingField (type key : String)
  /-- Something is wrong within a field. -/
  | within (type key : String) (fault : PayloadFault)
  | notIdentifier (owner label value : String)
  | emptyText (owner label : String)
  | badNamedImport (entry : String)
  | badOperator (value : String)
  | importNothing (kind : String)
  | noClasses (kind : String)
  | badPropName (kind value : String)
  | badWrapper (kind value : String)
  | badFormStyle (kind value : String)
  | operationNotObject (kind : String)
  | unknownType (value : String)
  | noPath
  | badAction (value path : String)
  | changesNotList (path : String)
  | envelopeNotObject
  | noFiles
  deriving Repr

namespace PayloadFault

/-- A list of strings as messages show it. -/
def shownStrings (xs : List String) : String := (Json.array (xs.map .string)).shown

/-- The wording of a fault. -/
def message : PayloadFault → String
  | notScalar kind => "Expected a string or scalar, got " ++ kind
  | notBoolean kind => "Expected a boolean, got " ++ kind
  | notList kind => "Expected a list, got " ++ kind
  | notObject kind => "Expected an object, got " ++ kind
  | notRecord type => "Expected an object for " ++ type
  | notRecords type => "Expected a list of " ++ type ++ " objects"
  | notOneOf value valid => "Invalid value " ++ value ++ ", must be one of " ++ shownStrings valid
  | missingField type key => type ++ " requires field '" ++ key ++ "'"
  | within type key fault => type ++ "." ++ key ++ ": " ++ fault.message
  | notIdentifier owner label value =>
    owner ++ ": " ++ label ++ " " ++ Text.quote value ++ " is not a valid identifier"
  | emptyText owner label => owner ++ ": " ++ label ++ " must not be empty"
  | badNamedImport entry => "import: invalid named import " ++ Text.quote entry
  | badOperator value => "template: operator must be '?' or '&&', got " ++ Text.quote value
  | importNothing kind => kind ++ " requires 'source' or 'content'"
  | noClasses kind => kind ++ " requires staticClasses, template or rawTemplate"
  | badPropName kind value => kind ++ ": invalid prop name " ++ Text.quote value
  | badWrapper kind value => kind ++ ": invalid wrapper component " ++ Text.quote value
  | badFormStyle kind value =>
    kind ++ ": loginFormStyle must be 'simple' or 'styled', got " ++ Text.quote value
  | operationNotObject kind => "Operation must be an object, got " ++ kind
  | unknownType value => "Unknown operation type: " ++ value
  | noPath => "File change requires a non-empty 'path'"
  | badAction value path =>
    "Invalid action " ++ value ++ " for " ++ path ++ "; must be one of " ++
      shownStrings ["CREATE", "MODIFY", "DELETE"]
  | changesNotList path => "'changes' for " ++ path ++ " must be a list"
  | envelopeNotObject => "Change set must be a JSON object"
  | noFiles => "Change set requires a 'files' list"

end PayloadFault

/-- Why a change cannot be carried out. -/
inductive Failure where
  | payload (fault : PayloadFault)
  -- reading source text
  | syntaxError
  | noTree (language : String)
  | staleHandle (kind : String) (version current : Nat)
  | noNode (kind : String) (start stop : Nat)
  | overlap (start stop : Nat)
  /-- An edit cuts a character apart. -/
  | cutCharacter
  -- finding the target
  | elementNotFound (tag : String) (present : List String)
  | functionNotFound (descriptor : String)
  | textNotFound (pattern : String)
  | jsxNotFound (pattern : String)
  -- changing it
  | needsTree (operation path : String)
  | runningTextBroken
  | alreadyDeclared (names : List String) (owner : String)
  | reducerDeclared (name : String)
  | defaultImportedAs (source present requested : String)
  | importedFrom (name source : String)
  | declaredInModule (name : String)
  | notOneImport (content : String)
  | typeOnlyImport
  | fragmentAttributes
  | fragmentBroken (jsx : String)
  | notChild (tag position : String)
  | noClosingTag
  | propPresent (prop tag : String)
  | propAbsent (action prop tag : String) (spread : Bool)
  | noReturn (owner : String)
  | extractIntoSelf (component : String)
  -- running a file change
  | createdExists (path : String)
  | fileExists (path : String)
  | fileMissing (path : String)
  | deleteWithOperations
  | resultBroken
  | duplicateNames (names : List String)
  | createdBroken (path : String)
  | unexpected (text : String)
  -- running a change set
  | timedOut (path seconds : String)
  | crashed (text : String)
  | createdTwice (created other path : String)
  deriving Repr

namespace Failure

/-- Stands for the description and position of a syntax error, which are not reported. -/
def syntaxDetail : String := "<syntax>"

/-- What to do about a pattern that does not occur. -/
def staleHint : String := "re-read the current file and regenerate the pattern"

/-- The kind of a failure. -/
def kind : Failure → FailureKind
  | payload _ => .invalidOperation
  | syntaxError => .parseError
  | noTree _ => .invalidOperation
  | staleHandle .. | noNode .. | cutCharacter | unexpected _ | crashed _ => .internalError
  | elementNotFound .. | functionNotFound _ | textNotFound _ | jsxNotFound _ => .patternNotFound
  | needsTree .. | notOneImport _ | typeOnlyImport | deleteWithOperations => .invalidOperation
  | fileExists _ | fileMissing _ => .fileNotFound
  | resultBroken | duplicateNames _ | createdBroken _ => .postconditionViolated
  | timedOut .. => .parseError
  | overlap .. | runningTextBroken | alreadyDeclared .. | reducerDeclared _ | defaultImportedAs ..
  | importedFrom .. | declaredInModule _ | fragmentAttributes | fragmentBroken _ | notChild ..
  | noClosingTag | propPresent .. | propAbsent .. | noReturn _ | extractIntoSelf _
  | createdExists _ | createdTwice .. => .structuralConflict

/-- The target of a search that failed. -/
def descriptor? : Failure → Option String
  | elementNotFound tag _ => some tag
  | functionNotFound d => some d
  | textNotFound p => some p
  | jsxNotFound p => some p
  | _ => none

/-- The wording of a search that failed, where nothing else is said about it. -/
def searchMessage (descriptor : String) (message : Option String) : String :=
  match message.filter (· != "") with
  | some m => m
  | none => "Target not found: " ++ Text.quote descriptor

/-- Names in quotes with commas between them. -/
def quotedNames (names : List String) : String := Text.join ", " (names.map Text.quote)

/-- The wording of a failure. -/
def message : Failure → String
  | payload fault => fault.message
  | syntaxError => "Syntax error: " ++ syntaxDetail
  | noTree language => language ++ " files have no syntax tree"
  | staleHandle kind version current =>
    "Handle for " ++ kind ++ " belongs to tree version " ++ toString version ++
      ", current version is " ++ toString current
  | noNode kind start stop =>
    "No " ++ kind ++ " node at bytes " ++ toString start ++ "-" ++ toString stop
  | overlap start stop =>
    "Overlapping edits at bytes " ++ toString start ++ "-" ++ toString stop ++
      "; split the change into separate operations"
  | cutCharacter => "An edit cuts a character apart"
  | elementNotFound tag present =>
    let hint :=
      if present.isEmpty then "" else "; elements present: " ++ Text.join ", " (present.take 10)
    "No <" ++ tag ++ "> element found" ++ hint
  | functionNotFound d => "No function found for " ++ Text.quote d
  | textNotFound p => "Text not found: " ++ Text.quote (Text.takeFirst 80 p) ++ "; " ++ staleHint
  | jsxNotFound p => "JSX to extract not found: " ++ Text.quote p ++ "; " ++ staleHint
  | needsTree operation path =>
    operation ++ " needs a syntax tree; " ++ path ++ " is not a TSX/JS/TS file. " ++
      "Use InsertBefore/InsertAfter/Replace/Delete/Append instead"
  | runningTextBroken =>
    "Cannot apply a structural operation: current text does not parse (" ++ syntaxDetail ++ ")"
  | alreadyDeclared names owner => quotedNames names ++ " already declared in " ++ owner
  | reducerDeclared name => "Reducer name '" ++ name ++ "' is already declared"
  | defaultImportedAs source present requested =>
    "'" ++ source ++ "' is already default-imported as '" ++ present ++
      "', cannot import it as '" ++ requested ++ "'"
  | importedFrom name source => "'" ++ name ++ "' is already imported from '" ++ source ++ "'"
  | declaredInModule name => "'" ++ name ++ "' is already declared in this module"
  | notOneImport content => "Expected a single import statement, got " ++ Text.quote content
  | typeOnlyImport => "Type-only imports are not supported by AddImport"
  | fragmentAttributes => "Cannot add attributes to a fragment"
  | fragmentBroken jsx =>
    "JSX fragment does not parse: " ++ syntaxDetail ++ " in " ++
      Text.quote (Text.takeFirst 60 (Text.stripped jsx))
  | notChild tag position => "<" ++ tag ++ "> is not a JSX child; cannot insert " ++ position ++ " it"
  | noClosingTag => "Target element has no closing tag"
  | propPresent prop tag =>
    "Prop '" ++ prop ++ "' already exists on <" ++ tag ++ ">; use action 'update'"
  | propAbsent action prop tag spread =>
    "Cannot " ++ action ++ " prop '" ++ prop ++ "' on <" ++ tag ++ ">: " ++
      (if spread then "it may come from a spread attribute" else "it is not set")
  | noReturn owner => owner ++ " has no return statement to guard with a login form"
  | extractIntoSelf component => "Cannot extract " ++ component ++ " into the file it comes from"
  | createdExists path => "Created file " ++ path ++ " collides with an existing file"
  | fileExists path => "Cannot create " ++ path ++ ": file already exists"
  | fileMissing path => "File not found: " ++ path
  | deleteWithOperations => "DELETE takes no operations"
  | resultBroken => "Result does not parse: " ++ syntaxDetail
  | duplicateNames names =>
    "Result declares " ++ Text.join ", " names ++ " more than once in one scope"
  | createdBroken path => "Created file " ++ path ++ " does not parse: " ++ syntaxDetail
  | unexpected text => text
  | timedOut path seconds => "Processing " ++ path ++ " timed out after " ++ seconds ++ "s"
  | crashed text => "Worker thread exception: " ++ text
  | createdTwice created other path =>
    "Created file " ++ created ++ " is also created by changes to " ++ other ++
      "; no changes to " ++ path ++ " were applied"

end Failure

end SourceChange
