import SourceChange.Import.Entry
import SourceChange.Text.Case
import SourceChange.Text.Indent

/-!
Generated modules: what they import, their declarations, and the names these introduce.

The module of a React context holds the context itself, the component that provides its value, and the hook
that reads it. State variables become state of the provider, and the value exposes them with their
setters. The module of a zustand store holds its type, the initial state, and the actions; kept across
visits where that is asked for.
-/

namespace SourceChange.Template

/-- A generated module. -/
structure Module where
  imports : List ImportSpec
  body : String
  /-- The names that the body declares. -/
  declares : List String
  deriving Repr

namespace Module

/-- The declarations without line feeds at their ends. -/
def trimmedBody (m : Module) : String := String.ofList (Text.trim (· == '\n') m.body.toList)

/-- The text of a module that stands alone. -/
def render (m : Module) (quote : String) : String :=
  let header := Text.join "\n" (m.imports.map (Import.render · quote))
  Text.withFinalNewline (if header == "" then m.trimmedBody else header ++ "\n\n" ++ m.trimmedBody)

end Module

/-- A given name, or the default where none is given. -/
def nameOr (given : Option String) (default : String) : String :=
  match given with
  | some n => if n == "" then default else n
  | none => default

/-- The name of the function that sets a state variable. -/
def setterName (state : String) : String := "set" ++ Text.capitalize state

/-- The declaration of a state variable of the provider. -/
def renderState (typed : Bool) (s : ContextState) : String :=
  let type := s.type.getD ""
  let typeArgs := if typed && type != "" then "<" ++ type ++ ">" else ""
  "  const [" ++ s.name ++ ", " ++ setterName s.name ++ "] = useState" ++ typeArgs ++ "(" ++
    s.initial ++ ");"

/-- The component that provides the value of a context. -/
def renderProvider (context provider value : String) (typed : Bool) (states : List ContextState) :
    List String :=
  let children :=
    if typed then "\x7b children \x7d: \x7b children: ReactNode \x7d" else "\x7b children \x7d"
  ["export function " ++ provider ++ "(" ++ children ++ ") \x7b"] ++
    states.map (renderState typed) ++ (if states.isEmpty then [] else [""]) ++
    ["  const value = " ++ value ++ ";", "", "  return (",
     "    <" ++ context ++ ".Provider value=\x7bvalue\x7d>", "      \x7bchildren\x7d",
     "    </" ++ context ++ ".Provider>", "  );", "\x7d"]

/-- The hook that reads a context. -/
def renderConsumer (context provider hook : String) : List String :=
  ["export function " ++ hook ++ "() \x7b", "  const context = useContext(" ++ context ++ ");",
   "  if (context === undefined) \x7b",
   "    throw new Error('" ++ hook ++ " must be used within a " ++ provider ++ "');", "  \x7d",
   "  return context;", "\x7d"]

/-- The module of a context. -/
def contextModule (c : ContextProvider) (typed : Bool) : Module :=
  let provider := nameOr c.provider (c.context ++ "Provider")
  let hook := nameOr c.hook ("use" ++ c.context)
  let states := if c.includeState then c.states else []
  let given := typed && c.valueType.getD "" != ""
  let valueType := if given then c.context ++ "Value" else "any"
  let names := ["createContext", "useContext"] ++ (if states.isEmpty then [] else ["useState"]) ++
    (if typed then ["ReactNode"] else [])
  let typeLines :=
    if given then ["type " ++ valueType ++ " = " ++ c.valueType.getD "" ++ ";", ""] else []
  let typeArgs := if typed then "<" ++ valueType ++ ">" else ""
  let value :=
    if states.isEmpty then c.initial
    else Import.braces (states.flatMap fun s => [s.name, setterName s.name])
  { imports := [⟨"react", some "React", names, none⟩]
    body := Text.join "\n" (typeLines ++
      ["const " ++ c.context ++ " = createContext" ++ typeArgs ++ "(" ++ c.initial ++ ");", ""] ++
      renderProvider c.context provider value typed states ++ [""] ++
      renderConsumer c.context provider hook)
    declares := [c.context, provider, hook] ++ (if given then [valueType] else []) }

/-- The type of an initial value. -/
def inferType : Json → String
  | .bool _ => "boolean"
  | .string _ => "string"
  | .int _ | .float _ => "number"
  | .array _ => "any[]"
  | _ => "any"

/-- The parameters of an action. -/
def renderParams (action : StoreAction) (typed : Bool) : String :=
  Text.join ", " (action.params.map fun p =>
    if typed then p.name ++ ": " ++ nameOr p.type "any" else p.name)

/-- The type of a store. -/
def storeInterface (s : Store) : List String :=
  ["interface StoreState \x7b"] ++
    s.initial.map (fun (key, value) => "  " ++ key ++ ": " ++ inferType value ++ ";") ++
    s.actions.map (fun a => "  " ++ a.name ++ ": (" ++ renderParams a true ++ ") => void;") ++
    ["\x7d", ""]

/-- The state and the actions of a store. -/
def storeMembers (s : Store) (typed : Bool) : List String :=
  let state := s.initial.map fun (key, value) => "  " ++ key ++ ": " ++ value.render ++ ","
  let actions := s.actions.map fun a =>
    "  " ++ a.name ++ ": (" ++ renderParams a typed ++ ") => set((state) => " ++ a.body ++ "),"
  state ++ (if state.isEmpty || actions.isEmpty then [] else [""]) ++ actions

/-- The definition of a store that is kept under a key. -/
def persistedStore (s : Store) (typed : Bool) : List String :=
  let call := if typed then "create<StoreState>()" else "create"
  ["export const " ++ s.name ++ " = " ++ call ++ "(persist(", "  (set) => (\x7b"] ++
    (storeMembers s typed).map (fun m => if m == "" then "" else "  " ++ m) ++
    ["  \x7d),", "  \x7b", "    name: '" ++ nameOr s.persistKey (s.name ++ "-storage") ++ "',",
     "  \x7d", "));"]

/-- The definition of a store that is not kept. -/
def plainStore (s : Store) (typed : Bool) : List String :=
  let typeArgs := if typed then "<StoreState>" else ""
  ["export const " ++ s.name ++ " = create" ++ typeArgs ++ "((set) => (\x7b"] ++
    storeMembers s typed ++ ["\x7d));"]

/-- The module of a store. -/
def storeModule (s : Store) (typed : Bool) : Module :=
  { imports := [.named "zustand" ["create"]] ++
      (if s.persist then [.named "zustand/middleware" ["persist"]] else [])
    body := Text.join "\n" ((if typed then storeInterface s else []) ++
      (if s.persist then persistedStore s typed else plainStore s typed))
    declares := [s.name] ++ (if typed then ["StoreState"] else []) }

end SourceChange.Template
