import SourceChange.Proofs.Handles
import SourceChange.Proofs.Process

/-!
Operations are carried out step by step.

Each of them asks for trees and goes on from what they hold, and none looks at a version: handles are
taken from the tree that they are resolved in.
-/

namespace SourceChange

open Source

namespace Source.Reading

variable {α β : Type}

/-- Work that may fail and can be carried out step by step. -/
def Stepwise (m : Reading α) : Prop := Reader.Stepwise m.run

/-- What is computed from a renamed value is computed from the value. -/
theorem lift_map_bind {γ : Type} (x : Except Failure α) (g : α → β) (f : β → Reading γ) :
    (liftM (x.map g) >>= f : Reading γ) = liftM x >>= fun a => f (g a) := by
  cases x <;> rfl

namespace Stepwise

protected theorem pure (a : α) : Stepwise (pure a) := Reader.Stepwise.pure (Except.ok a)

protected theorem throw (e : Failure) : Stepwise (throw e : Reading α) :=
  Reader.Stepwise.pure (Except.error e)

protected theorem liftM (x : Except Failure α) : Stepwise (liftM x) := Reader.Stepwise.pure x

protected theorem bind {m : Reading α} {f : α → Reading β} (hm : m.Stepwise)
    (hf : ∀ a, (f a).Stepwise) : (m >>= f).Stepwise := by
  unfold Stepwise
  rw [ExceptT.run_bind]
  refine Reader.Stepwise.bind hm fun result => ?_
  cases result with
  | ok a => exact hf a
  | error e => exact Reader.Stepwise.pure _

protected theorem lifted {x : Except Failure α} {f : α → Reading β} (hf : ∀ a, (f a).Stepwise) :
    (liftM x >>= f).Stepwise :=
  .bind (.liftM x) hf

protected theorem lenient (language : Language) (text : String) {f : Tree → Reading β}
    (hversion : ∀ (t : Tree) (v w : Nat), f (t.withVersion v) = f (t.withVersion w))
    (hf : ∀ t, (f t).Stepwise) : (Reading.lenient language text >>= f).Stepwise :=
  Reader.Stepwise.ask ⟨none, language, text⟩
    (fun t v => congrArg ExceptT.run (hversion t v t.version)) hf

protected theorem lenientFile (path : String) (language : Language) (text : String)
    {f : Tree → Reading β}
    (hversion : ∀ (t : Tree) (v w : Nat), f (t.withVersion v) = f (t.withVersion w))
    (hf : ∀ t, (f t).Stepwise) : (Reading.lenientFile path language text >>= f).Stepwise :=
  Reader.Stepwise.ask ⟨some path, language, text⟩
    (fun t v => congrArg ExceptT.run (hversion t v t.version)) hf

end Stepwise

end Source.Reading

open Reading

/-- Going on from the tree of a draft is stepwise, if what comes next does not depend on the version. -/
theorem Draft.tree_stepwise {α : Type} (d : Draft) {f : Tree → Reading α}
    (hversion : ∀ (t : Tree) (v w : Nat), f (t.withVersion v) = f (t.withVersion w))
    (hf : ∀ t, (f t).Stepwise) :
    (d.tree >>= f).Stepwise := by
  rw [tree, bind_assoc]
  refine .lenientFile _ _ _ (fun t v w => ?_) fun t => ?_
  · change (if t.hasErrors then _ else _) >>= f = (if t.hasErrors then _ else _) >>= f
    cases t.hasErrors with
    | true => rfl
    | false => exact hversion t v w
  · split
    · exact .throw _
    · exact hf t

namespace Import

theorem merge_stepwise (d : Draft) (spec : ImportSpec) : (merge d spec).Stepwise := by
  refine d.tree_stepwise (fun t v w => ?_) fun t => .liftM _
  rw [mergeInto_withVersion t v w]

theorem requested_stepwise (r : ImportRequest) : (requested r).Stepwise := by
  unfold requested
  split
  · exact .lifted fun _ => .pure _
  · refine .lenient _ _ (fun t v w => ?_) fun t => .liftM _
    rw [specOf_withVersion, specOf_withVersion]

theorem add_stepwise (d : Draft) (r : ImportRequest) : (add d r).Stepwise := by
  refine .bind (requested_stepwise r) fun spec => ?_
  refine d.tree_stepwise (fun t v w => ?_) fun t => .lifted fun text => ?_
  · simp only [missing_withVersion, mergeInto_withVersion t v w]
  · dsimp only
    split
    · exact .pure _
    · exact .pure _

end Import

namespace Hook

theorem ensureImport_stepwise (d : Draft) (hook : String) : (ensureImport d hook).Stepwise := by
  refine d.tree_stepwise (fun t v w => ?_) fun t => ?_
  · simp only [Tree.imports_withVersion, List.any_map, Function.comp_def,
      Import.mergeInto_withVersion t v w]
    rfl
  · split
    · exact .pure _
    · exact .liftM _

theorem add_stepwise (d : Draft) (hook : Hook) (component : Option String) :
    (add d hook component).Stepwise := by
  refine d.tree_stepwise (fun t v w => ?_) fun t => .lifted fun f => .lifted fun edits => ?_
  · simp only [Tree.component_withVersion, lift_map_bind, edits_withVersion t v w]
    rfl
  · exact .lifted fun text => .bind (ensureImport_stepwise ..) fun text => .pure _

end Hook

namespace Element

theorem checkFragment_stepwise (jsx : String) : (checkFragment jsx).Stepwise := by
  refine .lenient _ _ (fun t v w => rfl) fun probe => ?_
  split
  · exact .throw _
  · exact .pure _

theorem insert_stepwise (d : Draft) (target jsx : String) (position : Position) :
    (insert d target jsx position).Stepwise := by
  refine .bind (checkFragment_stepwise jsx) fun _ => ?_
  refine d.tree_stepwise (fun t v w => ?_) fun t => .lifted fun element => .lifted fun x => ?_
  · simp only [Tree.element_withVersion, lift_map_bind, Source.Element.withVersion,
      Tree.resolveVisit_withVersion t v w]
    rfl
  · exact .lifted fun edit => .lifted fun text => .pure _

theorem changeClasses_stepwise (d : Draft) (target : String) (static : List String)
    (condition : Option ClassCondition) (raw : Option String) :
    (changeClasses d target static condition raw).Stepwise := by
  refine d.tree_stepwise (fun t v w => ?_) fun t => .lifted fun element => .lifted fun opening => ?_
  · simp only [Tree.element_withVersion, lift_map_bind, Source.Element.withVersion,
      Tree.resolve_withVersion t v w]
    rfl
  · exact .lifted fun edit => .lifted fun text => .pure _

theorem changeProp_stepwise (d : Draft) (target name : String) (action : PropAction)
    (value : Option String) : (changeProp d target name action value).Stepwise := by
  refine d.tree_stepwise (fun t v w => ?_) fun t => .lifted fun element => .lifted fun opening => ?_
  · simp only [Tree.element_withVersion, lift_map_bind, Source.Element.withVersion,
      Tree.resolve_withVersion t v w]
    rfl
  · exact .lifted fun edit => .lifted fun text => .pure _

theorem wrap_stepwise (d : Draft) (target wrapper : String) (props : List (String × String))
    (spec : Option ImportSpec) : (wrap d target wrapper props spec).Stepwise := by
  refine d.tree_stepwise (fun t v w => ?_) fun t => .lifted fun element => .lifted fun n => ?_
  · simp only [Tree.element_withVersion, lift_map_bind, Source.Element.withVersion,
      Tree.resolve_withVersion t v w]
    rfl
  · refine .lifted fun text => ?_
    dsimp only
    split
    · exact .bind (Import.merge_stepwise ..) fun text => .pure _
    · exact .bind (.pure _) fun text => .pure _

end Element

namespace Template

theorem mergeAll_stepwise (d : Draft) (specs : List ImportSpec) : (mergeAll d specs).Stepwise := by
  induction specs generalizing d with
  | nil => exact .pure _
  | cons spec specs ih => exact .bind (Import.merge_stepwise ..) fun text => ih _

theorem mergeFrom_stepwise (d : Draft) (t : Tree) (specs : List ImportSpec) :
    (mergeFrom d t specs).Stepwise := by
  cases specs with
  | nil => exact .pure _
  | cons spec specs => exact .lifted fun text => mergeAll_stepwise ..

theorem mergeFrom_withVersion (d : Draft) (t : Tree) (v w : Nat) (specs : List ImportSpec) :
    mergeFrom d (t.withVersion v) specs = mergeFrom d (t.withVersion w) specs := by
  cases specs with
  | nil => rfl
  | cons spec specs => rw [mergeFrom, mergeFrom, Import.mergeInto_withVersion t v w]

theorem attach_stepwise (d : Draft) (m : Module) (kind : String) : (attach d m kind).Stepwise := by
  refine d.tree_stepwise (fun t v w => ?_) fun t => ?_
  · rw [mergeFrom_withVersion d t v w]
    rfl
  · exact .bind (mergeFrom_stepwise ..) fun merged => .pure _

theorem addModule_stepwise (d : Draft) (m : Module) (kind summary : String) :
    (addModule d m kind summary).Stepwise := by
  unfold addModule
  split
  · exact .pure _
  · exact .bind (attach_stepwise ..) fun _ => .pure _

theorem addStore_stepwise (d : Draft) (s : Store) : (addStore d s).Stepwise := by
  unfold addStore
  dsimp only
  split
  · exact addModule_stepwise ..
  · exact .pure _

end Template

namespace Authentication

theorem addStates_stepwise (d : Draft) (component : Option String) (hooks : List Hook) :
    (addStates d component hooks).Stepwise := by
  induction hooks generalizing d with
  | nil => exact .pure _
  | cons h hs ih => exact .bind (Hook.add_stepwise ..) fun outcome => ih _

theorem handlersEdit_withVersion (t : Tree) (v w : Nat) (f : Source.Function) (email : Bool) :
    handlersEdit (t.withVersion v) (f.withVersion v) email =
      handlersEdit (t.withVersion w) (f.withVersion w) email := by
  simp only [handlersEdit, Tree.checkNames_withVersion t v w, Tree.layout_withVersion t v w,
    Hook.statementEdit_withVersion t v w]

theorem addHandlers_stepwise (d : Draft) (email : Bool) (component : Option String) :
    (addHandlers d email component).Stepwise := by
  refine d.tree_stepwise (fun t v w => ?_) fun t => ?_
  · simp only [Tree.component_withVersion, lift_map_bind, handlersEdit_withVersion t v w,
      Tree.edited_withVersion]
  · exact .lifted fun f => .lifted fun edit => .liftM _

theorem addForm_stepwise (d : Draft) (style : FormStyle) (email : Bool) (component : Option String) :
    (addForm d style email component).Stepwise := by
  refine d.tree_stepwise (fun t v w => ?_) fun t => .lifted fun f => .lifted fun body => ?_
  · have hbody (f : Source.Function) :
        (t.withVersion v).resolve (f.withVersion v).body =
          (t.withVersion w).resolve (f.withVersion w).body :=
      Tree.resolve_withVersion t v w f.body
    simp only [Tree.component_withVersion, lift_map_bind, Tree.layout_withVersion t v w, hbody]
    rfl
  · split
    · exact .throw _
    · refine .lifted fun l => ?_
      split
      · exact .lifted fun text => .pure _
      · exact .lifted fun edit => .lifted fun text => .pure _

theorem add_stepwise (d : Draft) (style : FormStyle) (email : Bool) (component : Option String) :
    (add d style email component).Stepwise := by
  refine .bind (addStates_stepwise ..) fun d => .bind (addHandlers_stepwise ..) fun text => ?_
  exact .bind (addForm_stepwise ..) fun _ => .pure _

end Authentication

theorem Extraction.extract_stepwise (d : Draft) (e : Extraction) : (extract d e).Stepwise := by
  refine d.tree_stepwise (fun t v w => ?_) fun t => .lifted fun x => ?_
  · simp only [locate_withVersion t v w, interfaceOf_withVersion]
    rfl
  · extract_lets file
    split
    · exact .bind (.throw _) fun _ => .lifted fun face => .lifted fun text =>
        .bind (Import.merge_stepwise ..) fun text => .pure _
    · refine .lifted fun face => .lifted fun text => ?_
      exact .bind (Import.merge_stepwise ..) fun text => .pure _

/-- Every operation is carried out step by step, and no version of a tree has a part in it. -/
theorem Operation.apply_stepwise (d : Draft) (op : Operation) : (op.apply d).Stepwise := by
  unfold apply
  split
  · exact .throw _
  · cases op with
    | hook h component => exact Hook.add_stepwise ..
    | addImport r => exact Import.add_stepwise ..
    | element target change =>
      cases change with
      | classes static condition raw => exact Element.changeClasses_stepwise ..
      | insert jsx position => exact Element.insert_stepwise ..
      | prop name action value => exact Element.changeProp_stepwise ..
      | wrap wrapper props spec => exact Element.wrap_stepwise ..
    | context c => exact Template.addModule_stepwise ..
    | store s => exact Template.addStore_stepwise ..
    | authentication style email component => exact Authentication.add_stepwise ..
    | extract e => exact Extraction.extract_stepwise ..
    | text change => exact .liftM _

section Outcome

variable {d : Draft} {r : Reader} {t : Tree}

/-- A tree was read from the text of a draft, which has no syntax errors. -/
structure Draft.Reads (d : Draft) (t : Tree) : Prop where
  eq_build : t = .build t.version d.language d.text.toList
  clean : t.hasErrors = false

theorem Draft.Reads.built (h : d.Reads t) : t.Built := h.eq_build ▸ Source.Tree.built_build _ _ _

theorem Draft.Reads.text_eq (h : d.Reads t) : t.text = d.text := by
  rw [h.eq_build, Tree.text, Tree.build, String.ofList_toList]

theorem Draft.reads_of_uncached (hr : r.cache = none) (ht : (d.tree.on r).1 = .ok t) : d.Reads t := by
  obtain ⟨rfl, hclean⟩ := Draft.tree_eq_of_uncached hr ht
  exact ⟨rfl, hclean⟩

theorem Draft.tree_cache_of_uncached (hr : r.cache = none) : (d.tree.on r).2.cache = none := by
  rw [Draft.tree_on_uncached hr]

/-- A reader that tells the texts of an operation apart comes to the same as one that keeps no trees. -/
theorem Operation.apply_on_eq {op : Operation} (hr : r.Exact) (hdiscerns : r.Discerns (op.apply d).run) :
    ((op.apply d).on r).1 = ((op.apply d).on .plain).1 :=
  (op.apply_stepwise d).run_eq hr hdiscerns

end Outcome

end SourceChange
