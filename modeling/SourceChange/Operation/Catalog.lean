import SourceChange.Operation.Basic

/-!
Which part of the engine carries out which kind of operation. A catalog has to cover every kind exactly
once.
-/

namespace SourceChange

/-- The parts of the engine that carry out operations. -/
inductive Handler where
  | hooks
  | imports
  | classNames
  | insertions
  | props
  | wrappers
  | templates
  | authentication
  | extraction
  | text
  deriving DecidableEq, Repr

namespace Handler

/-- All parts. -/
def all : List Handler :=
  [hooks, imports, classNames, insertions, props, wrappers, templates, authentication, extraction, text]

/-- The public name of a part. -/
def name : Handler → String
  | hooks => "HookHandler"
  | imports => "ImportHandler"
  | classNames => "ClassNameHandler"
  | insertions => "JsxInsertHandler"
  | props => "PropHandler"
  | wrappers => "WrapHandler"
  | templates => "TemplateHandler"
  | authentication => "AuthenticationHandler"
  | extraction => "ExtractionHandler"
  | text => "TextualHandler"

end Handler

/-- The part that carries out a kind of operation. -/
def OperationKind.handler : OperationKind → Handler
  | addState | addEffect | addRef | addMemo | addCallback | addReducer => .hooks
  | addImport => .imports
  | modifyClassName => .classNames
  | insertJsx => .insertions
  | modifyProp => .props
  | wrapElement => .wrappers
  | addContextProvider | addZustandStore => .templates
  | addAuthentication => .authentication
  | extractComponent => .extraction
  | insertBefore | insertAfter | replace | delete | append => .text

/-- The kinds that a part carries out. -/
def Handler.kinds (h : Handler) : List OperationKind := OperationKind.all.filter (·.handler == h)

/-- What can be wrong with a catalog. -/
inductive CatalogFault where
  | handledTwice (kind : OperationKind) (first second : Handler)
  | unhandled (kinds : List OperationKind)
  deriving DecidableEq, Repr

/-- The wording of a fault. -/
def CatalogFault.message : CatalogFault → String
  | handledTwice kind first second =>
    kind.name ++ " is handled by both " ++ first.name ++ " and " ++ second.name
  | unhandled kinds => "No handler registered for: " ++ Text.join ", " (kinds.map (·.name))

/-- Which part carries out which kind. -/
abbrev Catalog := List (OperationKind × Handler)

namespace Catalog

/-- Takes one kind of a part into a catalog. -/
def add (c : Catalog) (kind : OperationKind) (h : Handler) : Except CatalogFault Catalog :=
  match c.lookup kind with
  | some other => .error (.handledTwice kind other h)
  | none => .ok (c ++ [(kind, h)])

/-- The catalog of the given parts, which have to cover every kind exactly once. -/
def build (handlers : List Handler) : Except CatalogFault Catalog := do
  let c ← (handlers.flatMap fun h => h.kinds.map fun k => (k, h)).foldlM
    (fun c (k, h) => add c k h) ([] : Catalog)
  let rest := OperationKind.all.filter fun k => (c.lookup k).isNone
  if rest.isEmpty then return c else throw (.unhandled rest)

end Catalog

end SourceChange
