import SourceChange.Advice.Analysis
import SourceChange.Operation.Apply

/-!
What is read off a tree does not depend on its version.

Functions, elements and imports carry handles, and these carry the version of their tree. Under another
version of the tree they are the same up to that number, and everything that is computed from them for an
edit is the same altogether.
-/

namespace SourceChange

open Source Syntax

namespace Source

/-- The same tree under another version. -/
def Tree.withVersion (t : Tree) (v : Nat) : Tree := { t with version := v }

def Handle.withVersion (h : Handle) (v : Nat) : Handle := { h with version := v }

def Function.withVersion (f : Function) (v : Nat) : Function :=
  { f with
    handle := f.handle.withVersion v
    body := f.body.withVersion v
    parameters := f.parameters.map (·.withVersion v)
    declarator := f.declarator.map (·.withVersion v)
    statement := f.statement.withVersion v }

def Element.withVersion (e : Element) (v : Nat) : Element :=
  { e with
    handle := e.handle.withVersion v
    opening := e.opening.withVersion v
    closing := e.closing.map (·.withVersion v) }

def Import.withVersion (i : Import) (v : Nat) : Import := { i with handle := i.handle.withVersion v }

namespace Tree

variable (t : Tree) (v w : Nat)

theorem edited_withVersion (edits : List Edit) : (t.withVersion v).edited edits = t.edited edits := rfl

theorem findOn_withVersion (h : Handle) (path : List Node) :
    findOn (h.withVersion v) path = findOn h path := by
  induction path with
  | nil => rfl
  | cons n above ih => rw [findOn, findOn, ih]; rfl

theorem resolveVisit_withVersion (h : Handle) :
    (t.withVersion v).resolveVisit (h.withVersion v) =
      (t.withVersion w).resolveVisit (h.withVersion w) := by
  -- a handle that is renamed along with its tree is never stale
  have hcurrent (u : Nat) : ¬ ((h.withVersion u).version != (t.withVersion u).version) = true := by
    simp [withVersion, Handle.withVersion]
  rw [resolveVisit, if_neg (hcurrent v), resolveVisit, if_neg (hcurrent w)]
  refine congrArg t.root.bind (funext fun root => ?_)
  dsimp only
  rw [findOn_withVersion, findOn_withVersion]
  rfl

theorem resolve_withVersion (h : Handle) :
    (t.withVersion v).resolve (h.withVersion v) = (t.withVersion w).resolve (h.withVersion w) := by
  rw [resolve, resolve, resolveVisit_withVersion t v w]

theorem build_withVersion (l : Language) (text : List Char) :
    (build v l text).withVersion w = build w l text := rfl

theorem hasErrors_withVersion : (t.withVersion v).hasErrors = t.hasErrors := rfl

theorem redeclarations_withVersion : (t.withVersion v).redeclarations = t.redeclarations := rfl

theorem elements_withVersion : (t.withVersion v).elements = t.elements.map (·.withVersion v) := by
  unfold elements
  rw [List.map_map]
  refine List.map_congr_left fun n _ => ?_
  simp only [Function.comp_apply, elementOf, Element.withVersion, Option.map_map]
  rfl

theorem imports_withVersion : (t.withVersion v).imports = t.imports.map (·.withVersion v) := by
  unfold imports
  rw [List.map_map]
  rfl

theorem functionAt_withVersion (x : Node.Visit) (name : Option String) (declarator : Option Node) :
    (t.withVersion v).functionAt x name declarator = (t.functionAt x name declarator).withVersion v := by
  simp only [functionAt, Function.withVersion, Option.map_map]
  rfl

theorem functionOf?_withVersion (x : Node.Visit) :
    (t.withVersion v).functionOf? x = (t.functionOf? x).map (·.withVersion v) := by
  have hat (name : Option String) (declarator : Option Node) :
      some ((t.withVersion v).functionAt x name declarator) =
        (some (t.functionAt x name declarator)).map (·.withVersion v) :=
    congrArg some (functionAt_withVersion t v x name declarator)
  unfold functionOf?
  dsimp only
  -- none of the conditions looks at the tree
  generalize x.node.isOneOf [.functionDeclaration, .generatorFunctionDeclaration] = declared
  generalize (x.node.isOneOf [.arrowFunction, .functionExpression] || x.node.isToken "function") =
    expressed
  generalize (!x.node.is .arrowFunction || isDefaultExportValue x) = alone
  cases declared with
  | true => exact hat _ _
  | false =>
    cases expressed with
    | false => rfl
    | true =>
      cases bindingDeclarator? x with
      | some d => exact hat _ _
      | none =>
        cases alone with
        | true => exact hat _ _
        | false => rfl

theorem functions_withVersion : (t.withVersion v).functions = t.functions.map (·.withVersion v) := by
  unfold functions
  rw [List.map_filterMap]
  congr 1
  exact funext fun x => functionOf?_withVersion t v x

theorem functionNamed?_withVersion (name : String) :
    (t.withVersion v).functionNamed? name = (t.functionNamed? name).map (·.withVersion v) := by
  unfold functionNamed?
  rw [functions_withVersion, List.find?_map]
  rfl

theorem component?_withVersion (name : Option String) :
    (t.withVersion v).component? name = (t.component? name).map (·.withVersion v) := by
  have hfind (p : Function → Bool) (hp : ∀ f : Function, p (f.withVersion v) = p f) :
      (t.withVersion v).functions.find? p = (t.functions.find? p).map (·.withVersion v) := by
    rw [functions_withVersion, List.find?_map, show p ∘ (·.withVersion v) = p from funext hp]
  have hdefault : (t.withVersion v).defaultExported? = t.defaultExported?.map (·.withVersion v) := by
    unfold defaultExported?
    rw [hfind _ fun f => rfl, show (t.withVersion v).defaultExportName? = t.defaultExportName? from rfl]
    cases t.functions.find? (·.isDefaultExport) with
    | some f => rfl
    | none => cases t.defaultExportName? with
      | none => rfl
      | some n => exact t.functionNamed?_withVersion v n
  cases name with
  | some name => exact t.functionNamed?_withVersion v name
  | none =>
    unfold component? mainComponent?
    dsimp only
    rw [hdefault, hfind _ fun f => rfl, hfind _ fun f => rfl]
    cases t.defaultExported? with
    | some f => rfl
    | none => cases t.functions.find? fun f => (f.name.map Text.startsUpper).getD false <;> rfl

theorem component_withVersion (name : Option String) :
    (t.withVersion v).component name = (t.component name).map (·.withVersion v) := by
  unfold component
  rw [component?_withVersion]
  cases t.component? name <;> rfl

theorem element_withVersion (tag : String) :
    (t.withVersion v).element tag = (t.element tag).map (·.withVersion v) := by
  have htags : (t.withVersion v).tagNames = t.tagNames := by
    unfold tagNames
    rw [elements_withVersion, List.map_map]
    rfl
  unfold element
  rw [elements_withVersion, List.find?_map, htags, Function.comp_def]
  dsimp only [Element.withVersion]
  cases t.elements.find? (·.tag == tag) <;> rfl

theorem layout_withVersion (f : Function) :
    (t.withVersion v).layout (f.withVersion v) = (t.withVersion w).layout (f.withVersion w) := by
  unfold layout
  simp only [Function.withVersion, resolve_withVersion t v w]
  rfl

theorem namesIn_withVersion (f : Function) :
    (t.withVersion v).namesIn (f.withVersion v) = (t.withVersion w).namesIn (f.withVersion w) := by
  unfold namesIn
  simp only [Function.withVersion, resolveVisit_withVersion t v w]
  cases f.parameters with
  | none => rfl
  | some h =>
    simp only [Option.map_some, resolve_withVersion t v w]
    rfl

theorem checkNames_withVersion (f : Function) (names : List String) :
    (t.withVersion v).checkNames (f.withVersion v) names =
      (t.withVersion w).checkNames (f.withVersion w) names := by
  unfold checkNames
  rw [namesIn_withVersion t v w]
  rfl

end Tree

end Source

namespace Hook

variable (t : Tree) (v w : Nat)

theorem statementEdit_withVersion (f : Function) (statement : String) (r : Nat) (indent : String) :
    statementEdit (t.withVersion v) (f.withVersion v) statement r indent =
      statementEdit (t.withVersion w) (f.withVersion w) statement r indent := by
  unfold statementEdit
  simp only [Function.withVersion, Tree.resolve_withVersion t v w]
  rfl

theorem reducerEdit_withVersion (f : Function) (name : String) (actions : List ReducerAction)
    (unit : String) :
    reducerEdit (t.withVersion v) (f.withVersion v) name actions unit =
      reducerEdit (t.withVersion w) (f.withVersion w) name actions unit := by
  unfold reducerEdit
  simp only [Function.withVersion, Tree.resolveVisit_withVersion t v w]
  rfl

theorem edits_withVersion (f : Function) (hook : Hook) :
    edits (t.withVersion v) (f.withVersion v) hook = edits (t.withVersion w) (f.withVersion w) hook := by
  unfold edits
  simp only [Tree.layout_withVersion t v w, Tree.checkNames_withVersion t v w,
    statementEdit_withVersion t v w, reducerEdit_withVersion t v w]

end Hook

namespace Import

variable (t : Tree) (v w : Nat)

theorem fromSource_withVersion (source : String) (imports : List Source.Import) :
    fromSource source (imports.map (·.withVersion v)) =
      (fromSource source imports).map (·.withVersion v) := by
  unfold fromSource
  rw [List.filter_map]
  rfl

theorem missingEntries_withVersion (spec : ImportSpec) (imports : List Source.Import) :
    missingEntries spec (imports.map (·.withVersion v)) = missingEntries spec imports := by
  simp only [missingEntries, hasEntry, List.any_map, Function.comp_def]
  rfl

theorem presentDefault?_withVersion (imports : List Source.Import) :
    presentDefault? (imports.map (·.withVersion v)) = presentDefault? imports := by
  simp only [presentDefault?, List.findSome?_map, Function.comp_def]
  rfl

theorem missingNamespace?_withVersion (spec : ImportSpec) (imports : List Source.Import) :
    missingNamespace? spec (imports.map (·.withVersion v)) = missingNamespace? spec imports := by
  simp only [missingNamespace?, hasNamespace, List.any_map, Function.comp_def]
  rfl

theorem missingDefault?_withVersion (spec : ImportSpec) (imports : List Source.Import) :
    missingDefault? spec (imports.map (·.withVersion v)) = missingDefault? spec imports := by
  rw [missingDefault?, presentDefault?_withVersion, missingDefault?]

theorem missing_withVersion (spec : ImportSpec) : missing (t.withVersion v) spec = missing t spec := by
  unfold missing
  rw [Tree.imports_withVersion, fromSource_withVersion]
  simp only [missingDefault?_withVersion, missingEntries_withVersion, missingNamespace?_withVersion]

theorem quoteStyle_withVersion (imports : List Source.Import) :
    quoteStyle (t.withVersion v) (imports.map (·.withVersion v)) = quoteStyle t imports := by
  simp only [quoteStyle, List.findSome?_map, Function.comp_def]
  rfl

theorem checkName_withVersion (imports : List Source.Import) (source : String) :
    checkName (t.withVersion v) (imports.map (·.withVersion v)) source = checkName t imports source := by
  funext name
  simp only [checkName, importedElsewhere?, List.filter_map, List.getLast?_map, List.any_map,
    Option.map_map, Function.comp_def]
  rfl

theorem findBraces?_withVersion (imports : List Source.Import) :
    findBraces? (t.withVersion v) (imports.map (·.withVersion v)) =
      (findBraces? (t.withVersion 0) (imports.map (·.withVersion 0))).map
        (·.map fun (i, n) => (i.withVersion v, n)) := by
  induction imports with
  | nil => rfl
  | cons i rest ih =>
    rw [List.map_cons, List.map_cons, findBraces?, findBraces?, ih]
    have hbraces : bracesOf? (t.withVersion v) (i.withVersion v) =
        bracesOf? (t.withVersion 0) (i.withVersion 0) := by
      rw [bracesOf?, bracesOf?, Source.Import.withVersion, Tree.resolve_withVersion t v 0]
      rfl
    rw [hbraces]
    rcases bracesOf? (t.withVersion 0) (i.withVersion 0) with e | _ | n <;> rfl

theorem clauseOf_withVersion (i : Source.Import) :
    clauseOf (t.withVersion v) (i.withVersion v) = clauseOf (t.withVersion w) (i.withVersion w) := by
  unfold clauseOf
  simp only [Source.Import.withVersion, Tree.resolve_withVersion t v w]

theorem newStatements_withVersion (imports : List Source.Import) (statements : String) :
    newStatements (t.withVersion v) (imports.map (·.withVersion v)) statements =
      newStatements t imports statements := by
  unfold newStatements
  rw [List.getLast?_map]
  cases imports.getLast? <;> rfl

theorem addEntries_withVersion (spec : ImportSpec) (quote : String) (present : List Source.Import)
    (names : List String) (newDefault : Option String) :
    addEntries (t.withVersion v) spec quote (present.map (·.withVersion v)) names newDefault =
      addEntries (t.withVersion w) spec quote (present.map (·.withVersion w)) names newDefault := by
  unfold addEntries
  rw [findBraces?_withVersion t v, findBraces?_withVersion t w]
  generalize findBraces? (t.withVersion 0) (present.map (·.withVersion 0)) = found
  rcases found with e | _ | ⟨i, n⟩
  · rfl
  · have hfind (u : Nat) : (present.map (·.withVersion u)).find?
          (fun i => i.default?.isSome && i.named.isEmpty && i.namespace?.isNone) =
        (present.find? fun i => i.default?.isSome && i.named.isEmpty && i.namespace?.isNone).map
          (·.withVersion u) := by
      rw [List.find?_map]
      rfl
    simp only [hfind]
    generalize (present.find? fun i => i.default?.isSome && i.named.isEmpty && i.namespace?.isNone) = only
    cases only with
    | none => rfl
    | some i =>
      simp only [Option.map_some, clauseOf_withVersion t v w]
      rfl
  · rfl

theorem addDefault_withVersion (spec : ImportSpec) (quote : String) (present : List Source.Import)
    (name : String) :
    addDefault (t.withVersion v) spec quote (present.map (·.withVersion v)) name =
      addDefault (t.withVersion w) spec quote (present.map (·.withVersion w)) name := by
  unfold addDefault
  rw [findBraces?_withVersion t v, findBraces?_withVersion t w]
  generalize findBraces? (t.withVersion 0) (present.map (·.withVersion 0)) = found
  rcases found with e | _ | ⟨i, n⟩
  · rfl
  · rfl
  · simp only [Except.map, Option.map_some]
    change (if _ then clauseOf (t.withVersion v) (i.withVersion v) >>= _ else _) =
      if _ then clauseOf (t.withVersion w) (i.withVersion w) >>= _ else _
    rw [clauseOf_withVersion t v w]
    rfl

theorem checkDefault_withVersion (spec : ImportSpec) (present : List Source.Import) :
    checkDefault spec (present.map (·.withVersion v)) = checkDefault spec present := by
  rw [checkDefault, presentDefault?_withVersion, checkDefault]

theorem planBindings_withVersion (spec : ImportSpec) :
    planBindings (t.withVersion v) spec = planBindings (t.withVersion w) spec := by
  unfold planBindings
  simp only [Tree.imports_withVersion, fromSource_withVersion, checkDefault_withVersion,
    missingEntries_withVersion, missingDefault?_withVersion, missingNamespace?_withVersion,
    quoteStyle_withVersion, newStatements_withVersion, checkName_withVersion,
    addEntries_withVersion t v w, addDefault_withVersion t v w]

theorem plan_withVersion (spec : ImportSpec) :
    plan (t.withVersion v) spec = plan (t.withVersion w) spec := by
  unfold plan
  simp only [Tree.imports_withVersion, List.any_map, Function.comp_def, quoteStyle_withVersion,
    newStatements_withVersion, planBindings_withVersion t v w]
  rfl

theorem specOf_withVersion (content : String) :
    specOf content (t.withVersion v) = specOf content t := by
  unfold specOf
  rw [Tree.imports_withVersion, show (t.withVersion v).content = t.content from rfl]
  rcases t.content with _ | _ | root
  · rfl
  · rfl
  · dsimp only
    rcases t.imports with _ | ⟨i, _ | _⟩ <;> rcases root.parts with _ | ⟨part, _ | _⟩ <;> rfl

theorem mergeInto_withVersion (d : Draft) (spec : ImportSpec) :
    mergeInto d (t.withVersion v) spec = mergeInto d (t.withVersion w) spec := by
  rw [mergeInto, mergeInto, plan_withVersion t v w]
  simp only [Tree.edited_withVersion]

end Import

namespace Extraction

variable (t : Tree) (v w : Nat)

theorem locate_withVersion (target : String) :
    locate (t.withVersion v) target = locate (t.withVersion w) target := by
  unfold locate
  simp only [Tree.element_withVersion]
  have hresolve (x : Except Failure Source.Element) (u : Nat) :
      ((x.map (·.withVersion u)) >>= fun e => (t.withVersion u).resolveVisit e.handle) =
        x >>= fun e => (t.withVersion u).resolveVisit (e.handle.withVersion u) := by
    cases x <;> rfl
  simp only [hresolve, Tree.resolveVisit_withVersion t v w]
  rfl

theorem reimports_withVersion (imports : List Source.Import) (names : List String)
    (source dest : String) :
    reimports (imports.map (·.withVersion v)) names source dest =
      reimports imports names source dest := by
  have himporting (name : String) : importing? (imports.map (·.withVersion v)) name =
      (importing? imports name).map fun found => (found.1.withVersion v, found.2) := by
    have hlast : ((imports.map (·.withVersion v)).filter (·.locals.contains name)).getLast? =
        ((imports.filter (·.locals.contains name)).getLast?).map (·.withVersion v) := by
      rw [List.filter_map, List.getLast?_map]
      rfl
    rw [importing?, hlast, importing?]
    generalize (imports.filter (·.locals.contains name)).getLast? = last
    rcases last with _ | i
    · rfl
    · change (i.names.find? (·.localName == name) >>= fun n => some (i.withVersion v, n)) =
        (i.names.find? (·.localName == name) >>= fun n => some (i, n)).map _
      cases i.names.find? (·.localName == name) <;> rfl
  unfold reimports
  dsimp only
  rw [show importing? (imports.map (·.withVersion v)) = _ from funext himporting,
    ← List.map_filterMap, List.foldl_map]
  rfl

theorem interfaceOf_withVersion (x : Node.Visit) (extractProps : Bool) (source dest : String) :
    interfaceOf (t.withVersion v) x extractProps source dest =
      interfaceOf t x extractProps source dest := by
  unfold interfaceOf
  simp only [Tree.imports_withVersion, reimports_withVersion, importsReact, List.any_map,
    Function.comp_def]
  have hvisible : (t.withVersion v).visibleNames x.ancestors = t.visibleNames x.ancestors := by
    induction x.ancestors with
    | nil => rfl
    | cons n above ih => rw [Tree.visibleNames, Tree.visibleNames, ih]; rfl
  rw [hvisible]
  rfl

end Extraction

namespace Advice

theorem suggestions_withVersion (t : Tree) (v : Nat) (path : String) (limits : Limits) (long : Bool) :
    suggestions (t.withVersion v) path limits long = suggestions t path limits long := by
  unfold suggestions
  refine List.map_congr_left fun c _ => ?_
  unfold suggestion
  rw [Tree.imports_withVersion, List.flatMap_map]
  rfl

end Advice

end SourceChange
