import SourceChange.Operation.Apply
import SourceChange.Proofs.Reading

/-!
What operations create.

`Operation.createdFile?` names the file that an operation creates next to the one it works on, if it
creates any. Carrying the operation out reads texts, and creates this file and no other.
-/

namespace SourceChange

open Source

namespace Draft

theorem tree_yields (d : Draft) : d.tree.Yields fun _ => True := by
  unfold tree
  refine .andThen (.lenientFile ..) fun t => ?_
  split
  · exact .throw _
  · exact .pure trivial

end Draft

namespace Import

theorem merge_yields (d : Draft) (spec : ImportSpec) : (merge d spec).Yields fun _ => True := by
  unfold merge
  refine .andThen d.tree_yields fun t => ?_
  exact .liftM fun _ _ => trivial

theorem requested_yields (r : ImportRequest) : (requested r).Yields fun _ => True := by
  unfold requested
  split
  · exact .lifted fun _ => .pure trivial
  · unfold readStatement
    exact .andThen (.lenient ..) fun t => .liftM fun _ _ => trivial

theorem add_yields (d : Draft) (r : ImportRequest) : (add d r).Yields (·.created = []) := by
  unfold add
  refine .andThen (requested_yields r) fun spec => ?_
  refine .andThen d.tree_yields fun t => ?_
  refine .lifted fun text => ?_
  dsimp only
  split
  · exact .pure rfl
  · exact .pure rfl

end Import

namespace Hook

theorem ensureImport_yields (d : Draft) (hook : String) :
    (ensureImport d hook).Yields fun _ => True := by
  unfold ensureImport
  refine .andThen d.tree_yields fun t => ?_
  split
  · exact .pure trivial
  · exact .liftM fun _ _ => trivial

theorem add_yields (d : Draft) (hook : Hook) (component : Option String) :
    (add d hook component).Yields (·.created = []) := by
  unfold add
  refine .andThen d.tree_yields fun t => ?_
  refine .lifted fun f => .lifted fun edits => .lifted fun text => ?_
  exact .andThen (ensureImport_yields ..) fun text => .pure rfl

end Hook

namespace Element

theorem checkFragment_yields (jsx : String) : (checkFragment jsx).Yields fun _ => True := by
  unfold checkFragment
  refine .andThen (.lenient ..) fun probe => ?_
  split
  · exact .throw _
  · exact .pure trivial

theorem insert_yields (d : Draft) (target jsx : String) (position : Position) :
    (insert d target jsx position).Yields (·.created = []) := by
  unfold insert
  refine .andThen (checkFragment_yields jsx) fun _ => .andThen d.tree_yields fun t => ?_
  refine .lifted fun element => .lifted fun v => .lifted fun edit => .lifted fun text => ?_
  exact .pure rfl

theorem changeClasses_yields (d : Draft) (target : String) (static : List String)
    (condition : Option ClassCondition) (raw : Option String) :
    (changeClasses d target static condition raw).Yields (·.created = []) := by
  unfold changeClasses
  refine .andThen d.tree_yields fun t => .lifted fun element => .lifted fun opening => ?_
  exact .lifted fun edit => .lifted fun text => .pure rfl

theorem changeProp_yields (d : Draft) (target name : String) (action : PropAction)
    (value : Option String) :
    (changeProp d target name action value).Yields (·.created = []) := by
  unfold changeProp
  refine .andThen d.tree_yields fun t => .lifted fun element => .lifted fun opening => ?_
  exact .lifted fun edit => .lifted fun text => .pure rfl

theorem wrap_yields (d : Draft) (target wrapper : String) (props : List (String × String))
    (spec : Option ImportSpec) :
    (wrap d target wrapper props spec).Yields (·.created = []) := by
  unfold wrap
  refine .andThen d.tree_yields fun t => .lifted fun element => .lifted fun n => ?_
  refine .lifted fun text => ?_
  dsimp only
  split
  · exact .andThen (Import.merge_yields ..) fun text => .pure rfl
  · exact .andThen (.pure trivial) fun text => .pure rfl

end Element

namespace Template

theorem mergeAll_yields (d : Draft) (specs : List ImportSpec) :
    (mergeAll d specs).Yields fun _ => True := by
  induction specs generalizing d with
  | nil => exact .pure trivial
  | cons spec specs ih => exact .andThen (Import.merge_yields ..) fun text => ih _

theorem mergeFrom_yields (d : Draft) (t : Tree) (specs : List ImportSpec) :
    (mergeFrom d t specs).Yields fun _ => True := by
  cases specs with
  | nil => exact .pure trivial
  | cons spec specs => exact .lifted fun text => mergeAll_yields ..

theorem attach_yields (d : Draft) (m : Module) (kind : String) :
    (attach d m kind).Yields fun _ => True := by
  unfold attach
  refine .andThen d.tree_yields fun t => ?_
  exact .andThen (mergeFrom_yields ..) fun merged => .pure trivial

theorem addModule_yields (d : Draft) (m : Module) (kind summary : String) :
    (addModule d m kind summary).Yields (·.created = []) := by
  unfold addModule
  split
  · exact .pure rfl
  · exact .andThen (attach_yields ..) fun _ => .pure rfl

end Template

namespace Authentication

theorem addStates_yields (d : Draft) (component : Option String) (hooks : List Hook) :
    (addStates d component hooks).Yields fun _ => True := by
  induction hooks generalizing d with
  | nil => exact .pure trivial
  | cons h hs ih => exact .bind (Hook.add_yields ..) fun outcome _ => ih _

theorem addHandlers_yields (d : Draft) (email : Bool) (component : Option String) :
    (addHandlers d email component).Yields fun _ => True := by
  unfold addHandlers
  refine .andThen d.tree_yields fun t => .lifted fun f => ?_
  exact .lifted fun edit => .liftM fun _ _ => trivial

theorem addForm_yields (d : Draft) (style : FormStyle) (email : Bool) (component : Option String) :
    (addForm d style email component).Yields fun _ => True := by
  unfold addForm
  refine .andThen d.tree_yields fun t => .lifted fun f => .lifted fun body => ?_
  split
  · exact .throw _
  · refine .lifted fun l => ?_
    split
    · exact .lifted fun text => .pure trivial
    · exact .lifted fun edit => .lifted fun text => .pure trivial

theorem add_yields (d : Draft) (style : FormStyle) (email : Bool) (component : Option String) :
    (add d style email component).Yields (·.created = []) := by
  unfold add
  refine .andThen (addStates_yields ..) fun d => .andThen (addHandlers_yields ..) fun text => ?_
  exact .andThen (addForm_yields ..) fun _ => .pure rfl

end Authentication

/-- The file that an operation creates next to the one at `path`, if it creates any. -/
def Operation.createdFile? (path : String) : Operation → Option String
  | .extract e => some (Template.nameOr e.file (Extraction.defaultFile path e.component))
  | .store s => (some (Template.nameOr s.file path)).filter (· != path)
  | _ => none

theorem Template.addStore_yields (d : Draft) (s : Store) :
    (addStore d s).Yields fun o =>
      o.created.map Prod.fst = (Operation.createdFile? d.path (.store s)).toList := by
  unfold addStore
  dsimp only
  split
  case isTrue hsame =>
    refine (addModule_yields ..).mono fun o ho => ?_
    have hname : nameOr s.file d.path = d.path := by simpa using hsame
    simp [ho, Operation.createdFile?, hname, Option.filter]
  case isFalse hother =>
    have hname : nameOr s.file d.path ≠ d.path := by simpa using hother
    exact .pure (by simp [Operation.createdFile?, hname, Option.filter])

theorem Extraction.extract_yields (d : Draft) (e : Extraction) :
    (extract d e).Yields fun o =>
      o.created.map Prod.fst = (Operation.createdFile? d.path (.extract e)).toList := by
  unfold extract
  refine .andThen d.tree_yields fun t => .lifted fun v => ?_
  extract_lets file
  split
  · exact .bind (.throw _) fun _ h => False.elim h
  · refine .lifted fun face => .lifted fun text => ?_
    exact .andThen (Import.merge_yields ..) fun text => .pure rfl

/-- Carrying out an operation reads texts and creates the file that it names, and no other. -/
theorem Operation.apply_yields (d : Draft) (op : Operation) :
    (op.apply d).Yields fun o => o.created.map Prod.fst = (op.createdFile? d.path).toList := by
  -- all but the last two kinds of work create nothing
  have hnothing {m : Reading Outcome} (hm : m.Yields (·.created = [])) :
      m.Yields fun o => o.created.map Prod.fst = (none : Option String).toList :=
    hm.mono fun o ho => by simp [ho]
  unfold apply
  split
  · exact .throw _
  · cases op with
    | hook h component => exact hnothing (Hook.add_yields ..)
    | addImport r => exact hnothing (Import.add_yields ..)
    | element target change =>
      cases change with
      | classes static condition raw => exact hnothing (Element.changeClasses_yields ..)
      | insert jsx position => exact hnothing (Element.insert_yields ..)
      | prop name action value => exact hnothing (Element.changeProp_yields ..)
      | wrap wrapper props spec => exact hnothing (Element.wrap_yields ..)
    | context c => exact hnothing (Template.addModule_yields ..)
    | authentication style email component => exact hnothing (Authentication.add_yields ..)
    | text change =>
      refine hnothing (.liftM fun o ho => ?_)
      unfold TextChange.apply at ho
      cases happlied : change.applied d.text with
      | error e => simp [happlied, bind, Except.bind] at ho
      | ok text =>
        simp only [happlied, bind, Except.bind, pure, Except.pure, Except.ok.injEq] at ho
        rw [← ho]
        rfl
    | store s => exact Template.addStore_yields d s
    | extract e => exact Extraction.extract_yields d e

end SourceChange
