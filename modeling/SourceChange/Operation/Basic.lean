import SourceChange.Json.Value
import SourceChange.Text.Basic

/-!
The operations that change a file.

Twenty kinds of operations belong to eight families: hooks, imports, changes of elements, generated
contexts and stores, authentication, extraction of components, and changes of plain text.
-/

namespace SourceChange

/-- Which names to import from where. -/
structure ImportSpec where
  source : String
  defaultName : Option String
  /-- The entries in braces, each a name with or without an alias. -/
  entries : List String
  namespaceName : Option String
  deriving DecidableEq, Repr

namespace ImportSpec

/-- Imports nothing but the effects of a module. -/
def effects (source : String) : ImportSpec := ⟨source, none, [], none⟩

/-- Imports names in braces. -/
def named (source : String) (entries : List String) : ImportSpec := ⟨source, none, entries, none⟩

/-- Whether no name is imported. -/
def isEmpty (s : ImportSpec) : Bool :=
  s.defaultName.isNone && s.entries.isEmpty && s.namespaceName.isNone

end ImportSpec

/-- One case of a generated reducer. -/
structure ReducerAction where
  type : String
  handler : String
  deriving DecidableEq, Repr

/-- A hook to add to a component. -/
inductive Hook where
  | state (name setter initial : String) (type : Option String)
  | effect (body : String) (dependencies : Option (List String)) (cleanup : Option String)
  | ref (name initial : String)
  | memo (name computation : String) (dependencies : List String)
  | callback (name body : String) (params dependencies : List String)
  | reducer (name dispatch reducer initial : String) (actions : List ReducerAction)
  deriving DecidableEq, Repr

/-- An import to add: by its parts, or as a statement. -/
structure ImportRequest where
  source : Option String
  defaultName : Option String
  entries : List String
  namespaceName : Option String
  content : Option String
  deriving DecidableEq, Repr

namespace ImportRequest

/-- The parts of a request that names a source. -/
def spec (r : ImportRequest) : ImportSpec :=
  ⟨r.source.getD "", r.defaultName, r.entries, r.namespaceName⟩

end ImportRequest

/-- How a conditional class depends on its variable. -/
inductive ClassOperator where
  | choose
  | when
  deriving DecidableEq, Repr

namespace ClassOperator

/-- The symbol of an operator. -/
def symbol : ClassOperator → String
  | choose => "?"
  | when => "&&"

end ClassOperator

/-- A class that depends on a variable. -/
structure ClassCondition where
  test : String
  trueValue : String
  falseValue : String
  operator : ClassOperator
  deriving DecidableEq, Repr

/-- Where markup is inserted relative to its target. -/
inductive Position where
  | before
  | after
  | insideStart
  | insideEnd
  deriving DecidableEq, Repr

namespace Position

/-- The positions by name. -/
def named : List (String × Position) :=
  [("before", before), ("after", after), ("inside_start", insideStart), ("inside_end", insideEnd)]

/-- The name of a position. -/
def name : Position → String
  | before => "before"
  | after => "after"
  | insideStart => "inside_start"
  | insideEnd => "inside_end"

end Position

/-- What is done to a prop. -/
inductive PropAction where
  | add
  | update
  | remove
  deriving DecidableEq, Repr

namespace PropAction

/-- The actions by name. -/
def named : List (String × PropAction) := [("add", add), ("update", update), ("remove", remove)]

/-- The name of an action. -/
def name : PropAction → String
  | add => "add"
  | update => "update"
  | remove => "remove"

end PropAction

/-- A change of an element. -/
inductive ElementChange where
  | classes (static : List String) (condition : Option ClassCondition) (raw : Option String)
  | insert (jsx : String) (position : Position)
  | prop (name : String) (action : PropAction) (value : Option String)
  | wrap (wrapper : String) (props : List (String × String)) (spec : Option ImportSpec)
  deriving DecidableEq, Repr

/-- State that a generated context holds. -/
structure ContextState where
  name : String
  initial : String
  type : Option String
  deriving DecidableEq, Repr

/-- A context to generate, with its provider and its hook. -/
structure ContextProvider where
  context : String
  initial : String
  provider : Option String
  hook : Option String
  valueType : Option String
  includeState : Bool
  states : List ContextState
  deriving DecidableEq, Repr

/-- A parameter of a store's action. -/
structure ActionParam where
  name : String
  type : Option String
  deriving DecidableEq, Repr

/-- An action of a generated store. -/
structure StoreAction where
  name : String
  body : String
  params : List ActionParam
  deriving DecidableEq, Repr

/-- A store to generate. -/
structure Store where
  name : String
  initial : List (String × Json)
  file : Option String
  actions : List StoreAction
  persist : Bool
  persistKey : Option String
  deriving Repr

/-- How a login form looks. -/
inductive FormStyle where
  | simple
  | styled
  deriving DecidableEq, Repr

namespace FormStyle

/-- The name of a style. -/
def name : FormStyle → String
  | simple => "simple"
  | styled => "styled"

end FormStyle

/-- Markup to move into a component of its own. -/
structure Extraction where
  jsx : String
  component : String
  file : Option String
  extractProps : Bool
  propTypes : List (String × String)
  deriving DecidableEq, Repr

/-- A change of plain text, at the first occurrence of a pattern or at the end. -/
inductive TextChange where
  | insertBefore (pattern content : String)
  | insertAfter (pattern content : String)
  | replace (pattern replacement : String)
  | delete (pattern : String)
  | append (content : String)
  deriving DecidableEq, Repr

/-- An operation on a file. -/
inductive Operation where
  | hook (hook : Hook) (component : Option String)
  | addImport (request : ImportRequest)
  | element (target : String) (change : ElementChange)
  | context (provider : ContextProvider)
  | store (store : Store)
  | authentication (style : FormStyle) (email : Bool) (component : Option String)
  | extract (extraction : Extraction)
  | text (change : TextChange)
  deriving Repr

/-- The kinds of operations. -/
inductive OperationKind where
  | addState | addEffect | addRef | addMemo | addCallback | addReducer | addImport
  | modifyClassName | insertJsx | modifyProp | wrapElement | addContextProvider
  | addZustandStore | addAuthentication | extractComponent | insertBefore | insertAfter | replace
  | delete | append
  deriving DecidableEq, Repr

namespace OperationKind

/-- All kinds. -/
def all : List OperationKind :=
  [.addState, .addEffect, .addRef, .addMemo, .addCallback, .addReducer, .addImport,
   .modifyClassName, .insertJsx, .modifyProp, .wrapElement, .addContextProvider, .addZustandStore,
   .addAuthentication, .extractComponent, .insertBefore, .insertAfter, .replace, .delete, .append]

/-- The name of a kind. -/
def name : OperationKind → String
  | addState => "AddState"
  | addEffect => "AddEffect"
  | addRef => "AddRef"
  | addMemo => "AddMemo"
  | addCallback => "AddCallback"
  | addReducer => "AddReducer"
  | addImport => "AddImport"
  | modifyClassName => "ModifyClassName"
  | insertJsx => "InsertJSX"
  | modifyProp => "ModifyProp"
  | wrapElement => "WrapElement"
  | addContextProvider => "AddContextProvider"
  | addZustandStore => "AddZustandStore"
  | addAuthentication => "AddAuthentication"
  | extractComponent => "ExtractComponent"
  | insertBefore => "InsertBefore"
  | insertAfter => "InsertAfter"
  | replace => "Replace"
  | delete => "Delete"
  | append => "Append"

/-- Further names under which requests give a kind. -/
def otherNames : OperationKind → List String
  | addState => ["AST_ADD_STATE"]
  | addEffect => ["AST_ADD_USEEFFECT", "AST_ADD_EFFECT"]
  | addRef => ["AST_ADD_REF"]
  | addMemo => ["AST_ADD_MEMO"]
  | addCallback => ["AST_ADD_CALLBACK"]
  | addReducer => ["AST_ADD_REDUCER"]
  | addImport => ["AST_ADD_IMPORT", "ADD_IMPORT"]
  | modifyClassName => ["AST_MODIFY_CLASSNAME"]
  | insertJsx => ["AST_INSERT_JSX"]
  | modifyProp => ["AST_MODIFY_PROP"]
  | wrapElement => ["AST_WRAP_ELEMENT"]
  | addContextProvider => ["AST_ADD_CONTEXT_PROVIDER"]
  | addZustandStore => ["AST_ADD_ZUSTAND_STORE"]
  | addAuthentication => ["AST_ADD_AUTHENTICATION"]
  | extractComponent => ["AST_EXTRACT_COMPONENT"]
  | insertBefore => ["INSERT_BEFORE"]
  | insertAfter => ["INSERT_AFTER"]
  | replace => ["REPLACE"]
  | delete => ["DELETE"]
  | append => ["APPEND"]

/-- All names under which requests give a kind. -/
def wireNames (k : OperationKind) : List String := k.name :: k.otherNames

/-- The kind that requests give under a name. -/
def ofWireName? (name : String) : Option OperationKind := all.find? (·.wireNames.contains name)

/-- Whether operations of a kind work on the syntax tree and not on the text alone. -/
def isStructural : OperationKind → Bool
  | insertBefore | insertAfter | replace | delete | append => false
  | _ => true

end OperationKind

namespace Operation

/-- The kind of an operation. -/
def kind : Operation → OperationKind
  | hook (.state ..) _ => .addState
  | hook (.effect ..) _ => .addEffect
  | hook (.ref ..) _ => .addRef
  | hook (.memo ..) _ => .addMemo
  | hook (.callback ..) _ => .addCallback
  | hook (.reducer ..) _ => .addReducer
  | addImport _ => .addImport
  | element _ (.classes ..) => .modifyClassName
  | element _ (.insert ..) => .insertJsx
  | element _ (.prop ..) => .modifyProp
  | element _ (.wrap ..) => .wrapElement
  | context _ => .addContextProvider
  | store _ => .addZustandStore
  | authentication .. => .addAuthentication
  | extract _ => .extractComponent
  | text (.insertBefore ..) => .insertBefore
  | text (.insertAfter ..) => .insertAfter
  | text (.replace ..) => .replace
  | text (.delete _) => .delete
  | text (.append _) => .append

/-- Whether an operation works on the syntax tree. -/
def isStructural (op : Operation) : Bool := op.kind.isStructural

/-- The component that a description names. -/
def inComponent (component : Option String) : String :=
  match component with
  | some c => if c == "" then "" else " in component " ++ Text.quote c
  | none => ""

/-- An operation and its target in words. -/
def describe (op : Operation) : String :=
  op.kind.name ++
    match op with
    | hook _ component => inComponent component
    | authentication _ _ component => inComponent component
    | addImport r =>
      let source := r.source.getD ""
      if source == "" then " " ++ ((r.content.map Text.quote).getD "None")
      else " from " ++ Text.quote source
    | element target _ => " on <" ++ target ++ ">"
    | context c => " " ++ c.context
    | store s => " " ++ s.name
    | extract e => " " ++ e.component
    | text (.insertBefore p _) | text (.insertAfter p _) | text (.replace p _) | text (.delete p) =>
      " searchFor=" ++ Text.quote p
    | text (.append _) => ""

end Operation

end SourceChange
