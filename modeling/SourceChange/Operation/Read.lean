import SourceChange.Operation.Basic
import SourceChange.Operation.Fields

/-!
Reading operations from requests.

`Operation.read` takes the kind from the member `type` and reads the fields of that kind one after the
other; the first fault is the one reported. The names and texts are checked once all fields are read.
-/

namespace SourceChange

namespace ImportSpec

/-- Refuses a request that cannot be written as an import. -/
def validate (s : ImportSpec) : Except PayloadFault Unit := do
  Require.nonempty "import" "source" s.source
  s.defaultName.forM (Require.identifier "import" "binding")
  s.namespaceName.forM (Require.identifier "import" "binding")
  s.entries.forM fun e => Require.that (isImportEntry e) (.badNamedImport e)

/-- Reads what to import. -/
def read (p : Payload) : Except PayloadFault ImportSpec := do
  let source ← p.required (.plain "source") Convert.text
  let defaultName ← p.optional (.words "defaultImport" "default_import") Convert.text
  let entries ← p.withDefault (.words "namedImports" "named_imports") [] Convert.texts
  let namespaceName ← p.optional (.words "namespaceImport" "namespace_import") Convert.text
  let spec : ImportSpec := ⟨source, defaultName, entries, namespaceName⟩
  spec.validate
  return spec

end ImportSpec

namespace ClassCondition

/-- The operator with the given symbol. -/
def operatorOf (symbol : String) : Except PayloadFault ClassOperator :=
  if symbol == "?" then .ok .choose
  else if symbol == "&&" then .ok .when
  else .error (.badOperator symbol)

/-- Reads a class that depends on a variable. -/
def read (p : Payload) : Except PayloadFault ClassCondition := do
  let test ← p.required (.plain "variable") Convert.text
  let trueValue ← p.required (.words "trueValue" "true_value") Convert.text
  let falseValue ← p.withDefault (.words "falseValue" "false_value") "" Convert.text
  let symbol ← p.withDefault (.plain "operator") "?" Convert.text
  Require.nonempty "template" "variable" test
  let operator ← operatorOf symbol
  return ⟨test, trueValue, falseValue, operator⟩

end ClassCondition

/-- Reads one case of a reducer. -/
def ReducerAction.read (p : Payload) : Except PayloadFault ReducerAction := do
  let type ← p.required (.plain "type") Convert.text
  let handler ← p.required (.plain "handler") Convert.text
  return ⟨type, handler⟩

/-- Reads state of a context. -/
def ContextState.read (p : Payload) : Except PayloadFault ContextState := do
  let name ← p.required (.plain "name") Convert.text
  let initial ← p.required (.words "initialValue" "initial_value") Convert.text
  let type ← p.optional (.plain "type") Convert.text
  Require.identifier "stateVariables" "name" name
  return ⟨name, initial, type⟩

/-- Reads a parameter of an action. -/
def ActionParam.read (p : Payload) : Except PayloadFault ActionParam := do
  let name ← p.required (.plain "name") Convert.text
  let type ← p.optional (.plain "type") Convert.text
  return ⟨name, type⟩

/-- Reads an action of a store. -/
def StoreAction.read (p : Payload) : Except PayloadFault StoreAction := do
  let name ← p.required (.plain "name") Convert.text
  let body ← p.required (.plain "body") Convert.text
  let params ← p.withDefault (.plain "params") [] (Convert.records "StoreActionParam" ActionParam.read)
  Require.identifier "actions" "name" name
  return ⟨name, body, params⟩

namespace Operation

/-- Reads the component that an operation is for. -/
def readComponent (p : Payload) : Except PayloadFault (Option String) :=
  p.optional (.plain "component") Convert.text

/-- Reads a state variable to add. -/
def readState (p : Payload) : Except PayloadFault Operation := do
  let name ← p.required (.plain "name") Convert.text
  let setter ← p.required (.plain "setter") Convert.text
  let initial ← p.required (.words "initialValue" "initial_value") Convert.text
  let type ← p.optional (.words "typeAnnotation" "type_annotation") Convert.text
  let component ← readComponent p
  Require.identifier p.type "name" name
  Require.identifier p.type "setter" setter
  return .hook (.state name setter initial type) component

/-- Reads an effect to add. -/
def readEffect (p : Payload) : Except PayloadFault Operation := do
  let body ← p.required (.plain "body") Convert.text
  let dependencies ← p.optional (.plain "dependencies") Convert.texts
  let cleanup ← p.optional (.plain "cleanup") Convert.text
  let component ← readComponent p
  return .hook (.effect body dependencies cleanup) component

/-- Reads a reference to add. -/
def readRef (p : Payload) : Except PayloadFault Operation := do
  let name ← p.required (.plain "name") Convert.text
  let initial ← p.withDefault (.words "initialValue" "initial_value") "null" Convert.text
  let component ← readComponent p
  Require.identifier p.type "name" name
  return .hook (.ref name initial) component

/-- Reads a memoised value to add. -/
def readMemo (p : Payload) : Except PayloadFault Operation := do
  let name ← p.required (.plain "name") Convert.text
  let computation ← p.required (.plain "computation") Convert.text
  let dependencies ← p.withDefault (.plain "dependencies") [] Convert.texts
  let component ← readComponent p
  Require.identifier p.type "name" name
  Require.nonempty p.type "computation" computation
  return .hook (.memo name computation dependencies) component

/-- Reads a memoised function to add. -/
def readCallback (p : Payload) : Except PayloadFault Operation := do
  let name ← p.required (.plain "name") Convert.text
  let body ← p.required (.plain "body") Convert.text
  let params ← p.withDefault (.plain "params") [] Convert.texts
  let dependencies ← p.withDefault (.plain "dependencies") [] Convert.texts
  let component ← readComponent p
  Require.identifier p.type "name" name
  return .hook (.callback name body params dependencies) component

/-- Reads a reducer to add. -/
def readReducer (p : Payload) : Except PayloadFault Operation := do
  let name ← p.required (.plain "name") Convert.text
  let dispatch ← p.required (.words "dispatchName" "dispatch_name") Convert.text
  let reducer ← p.required (.words "reducerName" "reducer_name") Convert.text
  let initial ← p.required (.words "initialState" "initial_state") Convert.text
  let actions ← p.withDefault (.plain "actions") [] (Convert.records "ReducerAction" ReducerAction.read)
  let component ← readComponent p
  Require.identifier p.type "name" name
  Require.identifier p.type "dispatchName" dispatch
  Require.identifier p.type "reducerName" reducer
  return .hook (.reducer name dispatch reducer initial actions) component

/-- Reads an import to add. -/
def readImport (p : Payload) : Except PayloadFault Operation := do
  let source ← p.optional (.plain "source") Convert.text
  let defaultName ← p.optional (.words "defaultImport" "default_import") Convert.text
  let entries ← p.withDefault (.words "namedImports" "named_imports") [] Convert.texts
  let namespaceName ← p.optional (.words "namespaceImport" "namespace_import") Convert.text
  let content ← p.optional (.plain "content") Convert.text
  Require.that (source.getD "" != "" || content.getD "" != "") (.importNothing p.type)
  return .addImport ⟨source, defaultName, entries, namespaceName, content⟩

/-- The field that names the target element. -/
def targetField : Field := .words "targetElement" "target_element"

/-- Reads a change of classes. -/
def readClasses (p : Payload) : Except PayloadFault Operation := do
  let target ← p.required targetField Convert.text
  let static ← p.withDefault (.words "staticClasses" "static_classes") [] Convert.texts
  let condition ← p.optional (.plain "template") (Convert.record "ClassNameTemplate" ClassCondition.read)
  let raw ← p.optional (.words "rawTemplate" "raw_template") Convert.text
  Require.that (!static.isEmpty || condition.isSome || raw.getD "" != "") (.noClasses p.type)
  return .element target (.classes static condition raw)

/-- Reads markup to insert. -/
def readInsert (p : Payload) : Except PayloadFault Operation := do
  let target ← p.required targetField Convert.text
  let jsx ← p.required (.plain "jsx") Convert.text
  let position ← p.withDefault (.plain "position") .insideEnd (Convert.choice Position.named)
  Require.nonempty p.type "jsx" (Text.stripped jsx)
  return .element target (.insert jsx position)

/-- Reads a change of a prop. -/
def readProp (p : Payload) : Except PayloadFault Operation := do
  let target ← p.required targetField Convert.text
  let name ← p.required (.words "propName" "prop_name") Convert.text
  let action ← p.required (.plain "action") (Convert.choice PropAction.named)
  let value ← p.optional (.words "propValue" "prop_value") Convert.text
  Require.that (isElementName name || name.toList.contains ':') (.badPropName p.type name)
  return .element target (.prop name action value)

/-- Reads a wrapper of an element. -/
def readWrap (p : Payload) : Except PayloadFault Operation := do
  let target ← p.required targetField Convert.text
  let wrapper ← p.required (.words "wrapperComponent" "wrapper_component") Convert.text
  let props ← p.withDefault (.words "wrapperProps" "wrapper_props") [] Convert.textMembers
  let spec ← p.optional (.words "import" "import_spec") (Convert.record "ImportSpec" ImportSpec.read)
  Require.that (isElementName wrapper) (.badWrapper p.type wrapper)
  return .element target (.wrap wrapper props spec)

/-- Reads a context to generate. -/
def readContext (p : Payload) : Except PayloadFault Operation := do
  let context ← p.required (.words "contextName" "context_name") Convert.text
  let initial ← p.required (.words "initialValue" "initial_value") Convert.text
  let provider ← p.optional (.words "providerName" "provider_name") Convert.text
  let hook ← p.optional (.words "hookName" "hook_name") Convert.text
  let valueType ← p.optional (.words "valueType" "value_type") Convert.text
  let includeState ← p.withDefault (.words "includeState" "include_state") true Convert.boolean
  let states ← p.withDefault (.words "stateVariables" "state_variables") []
    (Convert.records "ContextStateVariable" ContextState.read)
  Require.identifier p.type "contextName" context
  return .context ⟨context, initial, provider, hook, valueType, includeState, states⟩

/-- Reads a store to generate. -/
def readStore (p : Payload) : Except PayloadFault Operation := do
  let name ← p.required (.words "storeName" "store_name") Convert.text
  let initial ← p.withDefault (.words "initialState" "initial_state") [] Convert.members
  let file ← p.optional (.words "storeFile" "store_file") Convert.text
  let actions ← p.withDefault (.plain "actions") [] (Convert.records "StoreAction" StoreAction.read)
  let persist ← p.withDefault (.plain "persist") false Convert.boolean
  let persistKey ← p.optional (.words "persistKey" "persist_key") Convert.text
  Require.identifier p.type "storeName" name
  return .store ⟨name, initial, file, actions, persist, persistKey⟩

/-- The form style with the given name. -/
def formStyle (kind name : String) : Except PayloadFault FormStyle :=
  if name == "simple" then .ok .simple
  else if name == "styled" then .ok .styled
  else .error (.badFormStyle kind name)

/-- Reads authentication to add. -/
def readAuthentication (p : Payload) : Except PayloadFault Operation := do
  let style ← p.withDefault (.words "loginFormStyle" "login_form_style") "styled" Convert.text
  let email ← p.withDefault (.words "includeEmailField" "include_email_field") true Convert.boolean
  let component ← readComponent p
  let style ← formStyle p.type style
  return .authentication style email component

/-- Reads markup to extract. -/
def readExtraction (p : Payload) : Except PayloadFault Operation := do
  let jsx ← p.required ⟨"targetJSX", ["targetJsx", "target_jsx"]⟩ Convert.text
  let component ← p.required (.words "componentName" "component_name") Convert.text
  let file ← p.optional (.words "componentFile" "component_file") Convert.text
  let extractProps ← p.withDefault (.words "extractProps" "extract_props") true Convert.boolean
  let propTypes ← p.withDefault (.words "propTypes" "prop_types") [] Convert.textMembers
  Require.nonempty p.type "targetJSX" (Text.stripped jsx)
  Require.identifier p.type "componentName" component
  return .extract ⟨jsx, component, file, extractProps, propTypes⟩

/-- The field that gives the text to search for. -/
def searchField : Field := .words "searchFor" "search_for"

/-- Reads an insertion before a text. -/
def readInsertBefore (p : Payload) : Except PayloadFault Operation := do
  let pattern ← p.required searchField Convert.text
  let content ← p.required (.plain "content") Convert.text
  Require.nonempty p.type "searchFor" pattern
  return .text (.insertBefore pattern content)

/-- Reads an insertion after a text. -/
def readInsertAfter (p : Payload) : Except PayloadFault Operation := do
  let pattern ← p.required searchField Convert.text
  let content ← p.withDefault (.plain "content") "" Convert.text
  Require.nonempty p.type "searchFor" pattern
  return .text (.insertAfter pattern content)

/-- Reads a replacement of a text. -/
def readReplace (p : Payload) : Except PayloadFault Operation := do
  let pattern ← p.required searchField Convert.text
  let replacement ← p.withDefault (.words "replaceWith" "replace_with") "" Convert.text
  Require.nonempty p.type "searchFor" pattern
  return .text (.replace pattern replacement)

/-- Reads a deletion of a text. -/
def readDelete (p : Payload) : Except PayloadFault Operation := do
  let pattern ← p.required searchField Convert.text
  Require.nonempty p.type "searchFor" pattern
  return .text (.delete pattern)

/-- Reads a text to append. -/
def readAppend (p : Payload) : Except PayloadFault Operation := do
  let content ← p.required (.plain "content") Convert.text
  return .text (.append content)

/-- Reads the fields of an operation of the given kind. -/
def readFields : OperationKind → Payload → Except PayloadFault Operation
  | .addState => readState
  | .addEffect => readEffect
  | .addRef => readRef
  | .addMemo => readMemo
  | .addCallback => readCallback
  | .addReducer => readReducer
  | .addImport => readImport
  | .modifyClassName => readClasses
  | .insertJsx => readInsert
  | .modifyProp => readProp
  | .wrapElement => readWrap
  | .addContextProvider => readContext
  | .addZustandStore => readStore
  | .addAuthentication => readAuthentication
  | .extractComponent => readExtraction
  | .insertBefore => readInsertBefore
  | .insertAfter => readInsertAfter
  | .replace => readReplace
  | .delete => readDelete
  | .append => readAppend

/-- The kind that a member `type` gives. -/
def kindOf? : Option Json → Option OperationKind
  | some (.string name) => OperationKind.ofWireName? name
  | _ => none

/-- Reads an operation. -/
def read : Json → Except PayloadFault Operation
  | .object ms =>
    let type := ms.lookup "type"
    match kindOf? type with
    | some kind => readFields kind ⟨kind.name, ms⟩
    | none => .error (.unknownType (type.getD .null).shown)
  | v => .error (.operationNotObject v.kindName)

end Operation

end SourceChange
