import SourceChange.Import.Plan
import SourceChange.Operation.Names
import SourceChange.Path
import SourceChange.Source.Locate
import SourceChange.Source.Scope
import SourceChange.Text.Indent

/-!
Moving markup into a component of its own.

The names that the markup uses decide the interface of the new component: what the file imports, the new
file imports too; what the file declares otherwise becomes a prop. Modules are named as each file sees them.
-/

namespace SourceChange.Extraction

open Source Syntax

/-- The name of the module at `target`, a path without its extension, as seen from a directory. -/
def moduleFrom (dir target : String) : String :=
  let way := Path.relative target (if dir == "" then "." else dir)
  if Text.hasStart way "../" then way else "./" ++ way

/-- A module named relative to the file `source`, as seen from the file `dest`. -/
def rebase (name source dest : String) : String :=
  if Text.hasStart name "." then
    moduleFrom (Path.directory dest) (Path.normalize (Path.join (Path.directory source) name))
  else name

/-- The file of a new component, next to the file it comes from. -/
def defaultFile (path component : String) : String :=
  let extension := (Path.splitExtension path).2
  Path.join (Path.directory path) (component ++ (if extension == "" then ".tsx" else extension))

/-- The markup to move: the first element with a tag, or the first with a given text up to layout. -/
def locate (t : Tree) (target : String) : Except Failure Node.Visit :=
  let wanted := Text.stripped target
  if !wanted.toList.contains '<' && isElementName wanted then do
    let element ← t.element wanted
    t.resolveVisit element.handle
  else
    let form := Text.compact wanted
    match t.rootD.visits.find? fun v =>
        isElement v.node && Text.compact (t.nodeText v.node) == form with
    | some v => .ok v
    | none => .error (.jsxNotFound (Text.takeFirst 60 wanted))

/-- The last import that binds a name, and the binding. -/
def importing? (imports : List Source.Import) (name : String) :
    Option (Source.Import × ImportedName) := do
  let i ← (imports.filter (·.locals.contains name)).getLast?
  let n ← i.names.find? (·.localName == name)
  return (i, n)

/-- The bindings to import from one module. -/
structure Group where
  source : String
  defaultName : Option String
  entries : List String

/-- Changes the group of a module; a module that has none gets one at the end. -/
def updateGroup (source : String) (f : Group → Group) : List Group → List Group
  | [] => [f ⟨source, none, []⟩]
  | g :: gs => if g.source == source then f g :: gs else g :: updateGroup source f gs

/-- Takes one binding into the groups; the binding of a whole module is a statement of its own. -/
def collect (acc : List String × List Group) (source : String) (n : ImportedName) :
    List String × List Group :=
  match n.form with
  | .namespace => (acc.1 ++ [Import.renderNamespace n.localName source "'"], acc.2)
  | .default => (acc.1, updateGroup source (fun g => { g with defaultName := some n.localName }) acc.2)
  | .named => (acc.1, updateGroup source (fun g => { g with entries := g.entries ++ [n.entry] }) acc.2)

/-- The statement that imports a group. -/
def renderGroup (g : Group) : Except Failure String := do
  let spec : ImportSpec := ⟨g.source, g.defaultName, g.entries, none⟩
  spec.validate.mapError .payload
  return Import.render spec "'"

/-- The statements with which a new file imports the names that the old one imports. -/
def reimports (imports : List Source.Import) (names : List String) (source dest : String) :
    Except Failure (List String) := do
  let found := names.filterMap (importing? imports)
  let (statements, groups) := found.foldl
    (fun acc (i, n) => collect acc (rebase i.source source dest) n) ([], [])
  return statements ++ (← groups.mapM renderGroup)

/-- Whether a file imports React as a whole. -/
def importsReact (imports : List Source.Import) : Bool :=
  imports.any fun i => i.source == "react" && (i.default?.map (·.name == "React")).getD false

/-- The lines that give the types of props. -/
def propsInterface (component : String) (props : List String) (types : List (String × String)) :
    List String :=
  ["interface " ++ component ++ "Props \x7b"] ++
    props.map (fun p => "  " ++ p ++ ": " ++ (types.lookup p).getD "any" ++ ";") ++ ["\x7d", ""]

/-- The file of a new component. -/
def render (component jsx : String) (props : List String) (types : List (String × String))
    (imports : List String) (typed : Bool) : String :=
  let annotated := typed && !props.isEmpty
  let signature :=
    if props.isEmpty then ""
    else Import.braces props ++ (if annotated then ": " ++ component ++ "Props" else "")
  Text.join "\n"
    (imports ++ (if imports.isEmpty then [] else [""]) ++
      (if annotated then propsInterface component props types else []) ++
      ["export function " ++ component ++ "(" ++ signature ++ ") \x7b", "  return (",
       "    " ++ Text.reindent jsx "    ", "  );", "\x7d"]) ++ "\n"

/-- What a new component needs: its props and the statements that import the rest. -/
structure Interface where
  props : List String
  imports : List String

/-- The interface of the component for the given markup. -/
def interfaceOf (t : Tree) (v : Node.Visit) (extractProps : Bool) (source dest : String) :
    Except Failure Interface := do
  let imports := t.imports
  let imported (n : String) : Bool := imports.any (·.locals.contains n)
  let visible := t.visibleNames v.ancestors
  let free := t.freeNames v.node
  let props :=
    if extractProps then free.filter fun n => !imported n && visible.contains n else []
  let statements ← reimports imports (free.filter imported) source dest
  let needsReact := importsReact imports && !statements.any (Text.hasStart · "import React")
  return ⟨props, (if needsReact then ["import React from 'react';"] else []) ++ statements⟩

/-- The edit that puts a component in the place of markup. -/
def usageEdit (n : Node) (component : String) (props : List String) : Edit :=
  let attributes := String.join (props.map fun p => " " ++ p ++ "=\x7b" ++ p ++ "\x7d")
  ⟨n.start, n.stop, "<" ++ component ++ attributes ++ " />"⟩

/-- Moves markup of a draft into a component of its own. -/
def extract (d : Draft) (e : Extraction) : Reading Outcome := do
  let t ← d.tree
  let v ← locate t e.jsx
  let file := match e.file with
    | some f => if f == "" then defaultFile d.path e.component else f
    | none => defaultFile d.path e.component
  if file == d.path then throw (.extractIntoSelf e.component)
  let face ← interfaceOf t v e.extractProps d.path file
  let typed := Language.isTyped d.path && Language.isTyped file
  let content := render e.component (t.nodeText v.node) face.props e.propTypes face.imports typed
  let text ← t.edited [usageEdit v.node e.component face.props]
  let target := moduleFrom (Path.directory d.path) (Path.splitExtension file).1
  let text ← Import.merge (d.advance text) (.named target [e.component])
  let note := if face.props.isEmpty then "" else " with props " ++ Text.join ", " face.props
  return ⟨text, [(file, content)], [], "Extracted " ++ e.component ++ " into " ++ file ++ note⟩

end SourceChange.Extraction
