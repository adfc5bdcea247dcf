import SourceChange.Draft
import SourceChange.Import.Entry
import SourceChange.Operation.Read
import SourceChange.Source.Declaration

/-!
Adding imports to a module.

`Import.plan` computes the edits after which a module imports what a request asks for: names join what
is already imported from the same place, and new statements follow the last import. A name that the
module has already bound to something else is refused.
-/

namespace SourceChange.Import

open Source Syntax

/-- The imports of values from a module. -/
def fromSource (source : String) (imports : List Source.Import) : List Source.Import :=
  imports.filter fun i => i.source == source && !i.isTypeOnly

/-- Whether imports bring in a named binding. -/
def hasEntry (imports : List Source.Import) (entry : String) : Bool :=
  imports.any fun i => i.named.any fun n => (n.name, n.newName) == splitEntry entry

/-- The named bindings of a request that are not imported yet. -/
def missingEntries (spec : ImportSpec) (imports : List Source.Import) : List String :=
  (distinctEntries spec.entries).filter fun e => !hasEntry imports e

/-- The default binding that is imported. -/
def presentDefault? (imports : List Source.Import) : Option ImportedName :=
  imports.findSome? (·.default?)

/-- Whether imports bind the whole module under a name. -/
def hasNamespace (imports : List Source.Import) (name : String) : Bool :=
  imports.any fun i => (i.namespace?.map (·.name == name)).getD false

/-- The namespace binding of a request, unless it is imported already. -/
def missingNamespace? (spec : ImportSpec) (imports : List Source.Import) : Option String :=
  spec.namespaceName.filter fun n => !hasNamespace imports n

/-- The default binding of a request, unless one is imported already. -/
def missingDefault? (spec : ImportSpec) (imports : List Source.Import) : Option String :=
  if (presentDefault? imports).isSome then none else spec.defaultName

/-- The bindings of a request that a module does not import yet. -/
def missing (t : Tree) (spec : ImportSpec) : List String :=
  let present := fromSource spec.source t.imports
  (missingDefault? spec present).toList ++ missingEntries spec present ++
    (missingNamespace? spec present).toList

/-- The quotes that the first import with quotes uses. -/
def quoteStyle (t : Tree) (imports : List Source.Import) : String :=
  let quoteOf (i : Source.Import) : Option String :=
    let cs := (t.slice i.handle.span.start i.handle.span.stop).toList
    let cs := Text.stripEnd (Text.dropEndWhile (· == ';') (Text.stripEnd cs))
    if cs.getLast? == some '\x22' then some "\""
    else if cs.getLast? == some '\x27' then some "'"
    else none
  (imports.findSome? quoteOf).getD "'"

/-- The source of the last import, of another module, that binds a name. -/
def importedElsewhere? (source name : String) (imports : List Source.Import) : Option String :=
  ((imports.filter fun i => i.source != source && i.locals.contains name).getLast?).map (·.source)

/-- Refuses a name that a module has bound to something else. -/
def checkName (t : Tree) (imports : List Source.Import) (source name : String) :
    Except Failure Unit :=
  match importedElsewhere? source name imports with
  | some other => .error (.importedFrom name other)
  | none =>
    let imported := imports.any (·.locals.contains name)
    if t.moduleNames.contains name && !imported then .error (.declaredInModule name) else .ok ()

/-- The braces of an import statement. -/
def bracesOf? (t : Tree) (i : Source.Import) : Except Failure (Option Node) := do
  let statement ← t.resolve i.handle
  return (Tree.importClause? statement).bind fun c => c.named.find? (·.is .namedImports)

/-- The first import with braces, and its braces. -/
def findBraces? (t : Tree) : List Source.Import → Except Failure (Option (Source.Import × Node))
  | [] => .ok none
  | i :: is => do
    match ← bracesOf? t i with
    | some n => return some (i, n)
    | none => findBraces? t is

/-- Adds names to the braces of an import. -/
def extendBraces (t : Tree) (named : Node) (names : List String) : Edit :=
  match (named.named.filter (·.is .importSpecifier)).getLast? with
  | none => ⟨named.start, named.stop, braces names⟩
  | some last =>
    let gap :=
      if (t.nodeText named).toList.contains '\n' then ",\n" ++ t.indentAt last.start else ", "
    .insert last.stop (String.join (names.map (gap ++ ·)))

/-- Puts new statements after the last import, or after the directives, or at the start. -/
def newStatements (t : Tree) (imports : List Source.Import) (statements : String) : Edit :=
  match imports.getLast? with
  | some i => .insert i.handle.span.stop ("\n" ++ statements)
  | none =>
    let offset := t.directivesEnd
    if offset != 0 then .insert offset ("\n" ++ statements)
    else if Text.isBlankText t.text then .insert 0 (statements ++ "\n")
    else .insert 0 (statements ++ "\n\n")

/-- The clause that lists the bindings of an import. -/
def clauseOf (t : Tree) (i : Source.Import) : Except Failure Node := do
  let statement ← t.resolve i.handle
  return (Tree.importClause? statement).getD statement

/-- Edits of existing imports, and new statements. -/
structure Additions where
  edits : List Edit
  statements : List String

/-- The additions for named bindings. The flag says whether a new statement takes the default binding
along. -/
def addEntries (t : Tree) (spec : ImportSpec) (quote : String) (present : List Source.Import)
    (names : List String) (newDefault : Option String) : Except Failure (Additions × Bool) := do
  if names.isEmpty then return (⟨[], []⟩, false)
  match ← findBraces? t present with
  | some (_, named) => return (⟨[extendBraces t named names], []⟩, false)
  | none =>
    let defaultOnly (i : Source.Import) : Bool :=
      i.default?.isSome && i.named.isEmpty && i.namespace?.isNone
    match present.find? defaultOnly with
    | some i =>
      let clause ← clauseOf t i
      let node := (clause.named.find? (·.is .identifier)).getD clause
      return (⟨[.insert node.stop (", " ++ braces names)], []⟩, false)
    | none =>
      let statement := render ⟨spec.source, newDefault, names, none⟩ quote
      return (⟨[], [statement]⟩, true)

/-- The additions for a default binding. -/
def addDefault (t : Tree) (spec : ImportSpec) (quote : String) (present : List Source.Import)
    (name : String) : Except Failure Additions := do
  match ← findBraces? t present with
  | some (i, _) =>
    if i.default?.isNone && i.namespace?.isNone then
      let clause ← clauseOf t i
      return ⟨[.insert clause.start (name ++ ", ")], []⟩
    else return ⟨[], [render ⟨spec.source, some name, [], none⟩ quote]⟩
  | none => return ⟨[], [render ⟨spec.source, some name, [], none⟩ quote]⟩

/-- Refuses a default binding under another name than the present one. -/
def checkDefault (spec : ImportSpec) (present : List Source.Import) : Except Failure Unit :=
  match spec.defaultName, presentDefault? present with
  | some wanted, some n =>
    if n.name == wanted then .ok () else .error (.defaultImportedAs spec.source n.name wanted)
  | _, _ => .ok ()

/-- The edits for a request that binds at least one name. -/
def planBindings (t : Tree) (spec : ImportSpec) : Except Failure (List Edit) := do
  let imports := t.imports
  let present := fromSource spec.source imports
  let quote := quoteStyle t imports
  let names := missingEntries spec present
  checkDefault spec present
  let newDefault := missingDefault? spec present
  let newNamespace := missingNamespace? spec present
  let newLocals := names.map localName ++ newDefault.toList ++ newNamespace.toList
  newLocals.forM (checkName t imports spec.source)
  let (entries, tookDefault) ← addEntries t spec quote present names newDefault
  let default ← match newDefault with
    | some name => if tookDefault then pure ⟨[], []⟩ else addDefault t spec quote present name
    | none => pure ⟨[], []⟩
  let statements := entries.statements ++ default.statements ++
    newNamespace.toList.map fun n => renderNamespace n spec.source quote
  return entries.edits ++ default.edits ++
    (if statements.isEmpty then [] else [newStatements t imports (Text.join "\n" statements)])

/-- The edits after which a module imports what a request asks for; none if it does so already. -/
def plan (t : Tree) (spec : ImportSpec) : Except Failure (List Edit) :=
  if spec.isEmpty then
    if t.imports.any (·.source == spec.source) then .ok []
    else .ok [newStatements t t.imports (render spec (quoteStyle t t.imports))]
  else planBindings t spec

/-- The text of a draft, whose tree is given, with a request merged into its imports. -/
def mergeInto (d : Draft) (t : Tree) (spec : ImportSpec) : Except Failure String := do
  let edits ← plan t spec
  if edits.isEmpty then return d.text else t.edited edits

/-- The text of a draft with a request merged into its imports. -/
def merge (d : Draft) (spec : ImportSpec) : Reading String := do
  mergeInto d (← d.tree) spec

/-- The request that an import statement stands for. -/
def specOf (content : String) (t : Tree) : Except Failure ImportSpec := do
  let refusal := Failure.notOneImport content
  match t.content with
  | .parsed root =>
    match t.imports, root.parts with
    | [i], [_] =>
      if i.isTypeOnly then throw .typeOnlyImport
      let spec : ImportSpec :=
        ⟨i.source, i.default?.map (·.name), i.named.map (·.entry), i.namespace?.map (·.name)⟩
      spec.validate.mapError .payload
      return spec
    | _, _ => throw refusal
  | _ => throw refusal

/-- Reads an import statement as a request. -/
def readStatement (content : String) : Reading ImportSpec := do
  specOf content (← Reading.lenient .tsx (Text.stripped content))

/-- The request that an operation makes, by its parts or as a statement. -/
def requested (r : ImportRequest) : Reading ImportSpec :=
  if r.source.getD "" != "" then do
    r.spec.validate.mapError Failure.payload
    return r.spec
  else readStatement (r.content.getD "")

/-- Adds an import to a draft. -/
def add (d : Draft) (r : ImportRequest) : Reading Outcome := do
  let spec ← requested r
  let t ← d.tree
  let names := missing t spec
  let text ← mergeInto d t spec
  let source := "'" ++ spec.source ++ "'"
  if text == d.text then return .plain text (source ++ " already imported")
  else
    let what := if names.isEmpty then "module" else Text.join ", " names
    return .plain text ("Imported " ++ what ++ " from " ++ source)

end SourceChange.Import
