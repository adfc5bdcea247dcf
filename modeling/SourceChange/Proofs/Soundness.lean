import SourceChange.Proofs.Edits.Stages

/-!
Operations fail for reasons that lie in the request or in the text.

A failure is a defect if the engine itself would be to blame: a handle that does not resolve, or edits that
cannot be applied. No operation comes to one. Its handles are taken from the tree that they are resolved
in, and its edits go where they can be applied.
-/

namespace SourceChange

open Source Syntax Syntax.Node

/-- A failure for which the engine itself would be to blame. -/
def Failure.IsDefect : Failure → Prop
  | .staleHandle .. | .noNode .. | .overlap .. | .cutCharacter => True
  | _ => False

/-- Work that does not fail with a defect. -/
structure Sound {α : Type} (x : Except Failure α) : Prop where
  failure : ∀ e, x = .error e → ¬ e.IsDefect

namespace Sound

variable {α β : Type}

protected theorem ok (a : α) : Sound (.ok a) := ⟨fun _ h => by cases h⟩

protected theorem error {e : Failure} (he : ¬ e.IsDefect) : Sound (.error e : Except Failure α) := by
  refine ⟨fun e' h => ?_⟩
  cases h
  exact he

protected theorem bind {x : Except Failure α} {f : α → Except Failure β} (hx : Sound x)
    (hf : ∀ a, x = .ok a → Sound (f a)) : Sound (x >>= f) := by
  cases x with
  | error e => exact .error (hx.failure e rfl)
  | ok a => exact hf a rfl

/-- A request that is refused for its form. -/
protected theorem payload (x : Except PayloadFault α) : Sound (x.mapError Failure.payload) := by
  cases x with
  | error fault => exact .error id
  | ok a => exact .ok a

protected theorem of_eq_ok {x : Except Failure α} (h : ∃ a, x = .ok a) : Sound x := by
  obtain ⟨a, rfl⟩ := h
  exact .ok a

theorem mapM {f : α → Except Failure β} (hf : ∀ a, Sound (f a)) (as : List α) : Sound (as.mapM f) := by
  induction as with
  | nil => exact .ok []
  | cons a rest ih =>
    rw [List.mapM_cons]
    exact (hf a).bind fun b _ => ih.bind fun bs _ => .ok _

theorem forM {f : α → Except Failure PUnit} (hf : ∀ a, Sound (f a)) (as : List α) :
    Sound (as.forM f) := by
  induction as with
  | nil => exact .ok _
  | cons a rest ih => exact (hf a).bind fun _ _ => ih

end Sound

namespace Source

/-- Work on trees that does not fail with a defect, if the cache of its reader is right. -/
structure Reading.Sound {α : Type} (m : Reading α) : Prop where
  exact : ∀ r : Reader, r.Exact → (m.on r).2.Exact
  failure : ∀ r : Reader, r.Exact → SourceChange.Sound (m.on r).1

namespace Reading.Sound

variable {α β : Type}

protected theorem pure (a : α) : (pure a : Reading α).Sound :=
  ⟨fun _ h => h, fun _ _ => .ok a⟩

protected theorem throw {e : Failure} (he : ¬ e.IsDefect) : (throw e : Reading α).Sound :=
  ⟨fun _ h => h, fun _ _ => .error he⟩

protected theorem liftM {x : Except Failure α} (hx : SourceChange.Sound x) :
    (liftM x : Reading α).Sound :=
  ⟨fun _ h => h, fun _ _ => hx⟩

/-- The second of two pieces of work is sound for what the first can come to. -/
theorem bind_of_mem {m : Reading α} {f : α → Reading β} (hm : m.Sound)
    (hf : ∀ r : Reader, r.Exact → ∀ a, (m.on r).1 = .ok a → (f a).Sound) : (m >>= f).Sound := by
  constructor
  · intro r hr
    have hexact := hm.exact r hr
    rw [on_bind]
    rcases h : m.on r with ⟨e | a, s⟩
    · simpa [h] using hexact
    · rw [h] at hexact
      exact (hf r hr a (by rw [h])).exact s hexact
  · intro r hr
    have hexact := hm.exact r hr
    have hfailure := hm.failure r hr
    rw [on_bind]
    rcases h : m.on r with ⟨e | a, s⟩
    · rw [h] at hfailure
      exact .error (hfailure.failure e rfl)
    · rw [h] at hexact
      exact (hf r hr a (by rw [h])).failure s hexact

protected theorem bind {m : Reading α} {f : α → Reading β} (hm : m.Sound) (hf : ∀ a, (f a).Sound) :
    (m >>= f).Sound :=
  hm.bind_of_mem fun _ _ a _ => hf a

protected theorem lifted {x : Except Failure α} {f : α → Reading β} (hx : SourceChange.Sound x)
    (hf : ∀ a, x = .ok a → (f a).Sound) : (liftM x >>= f).Sound :=
  (Sound.liftM hx).bind_of_mem fun _ _ a ha => hf a ha

protected theorem lenient (language : Language) (text : String) :
    (Reading.lenient language text).Sound :=
  ⟨fun _ h => h.read language text, fun _ _ => .ok _⟩

end Reading.Sound

end Source

open Source.Reading

/-- What comes after the tree of a draft has only to be sound for trees that were read. -/
theorem Draft.tree_sound {α : Type} (d : Draft) {f : Tree → Reading α}
    (hf : ∀ t : Tree, t.Built → (f t).Sound) : (d.tree >>= f).Sound := by
  have hread : (Reading.lenientFile d.path d.language d.text).Sound :=
    ⟨fun _ h => h.fileTree d.path d.language d.text, fun _ _ => .ok _⟩
  rw [tree, bind_assoc]
  refine hread.bind_of_mem fun r hr t ht => ?_
  have hbuilt : t.Built := by
    cases ht
    exact hr.fileTree_built d.path d.language d.text
  split
  · exact .bind_of_mem (.throw (e := .runningTextBroken) id) fun r hr a ha => by cases ha
  · exact hf t hbuilt

variable {t : Tree} {f : Source.Function}

namespace Source.Tree

theorem Resolves.resolveVisit (ht : t.Resolves) {n : Node} (hn : n ∈ t.rootD.walk) :
    Sound (t.resolveVisit (t.handle n)) :=
  .of_eq_ok (ht n hn)

theorem Resolves.resolve (ht : t.Resolves) {n : Node} (hn : n ∈ t.rootD.walk) :
    Sound (t.resolve (t.handle n)) :=
  (ht.resolveVisit hn).bind fun v _ => .ok v.node

theorem component_sound (t : Tree) (name : Option String) : Sound (t.component name) := by
  unfold component
  split
  · exact .ok _
  · exact .error id

theorem element_sound (t : Tree) (tag : String) : Sound (t.element tag) := by
  unfold element
  split
  · exact .ok _
  · exact .error id

/-- Edits that can be applied are. -/
theorem edited_sound {es : List Edit} (h : Edit.Applicable t.chars es) : Sound (t.edited es) :=
  .of_eq_ok h.applyAll_eq_ok

/-- The handles that describe a function resolve. -/
theorem Describes.visits_sound {statement body : Node} (h : t.Describes f statement body)
    (ht : t.Resolves) : Sound (t.resolveVisit f.body) ∧ Sound (t.resolveVisit f.statement) := by
  have hbody := mem_walk_trans h.statement_mem h.body_mem
  rw [h.body_eq, h.statement_eq]
  exact ⟨ht.resolveVisit hbody, ht.resolveVisit h.statement_mem⟩

theorem resolve_sound {h : Handle} (hv : Sound (t.resolveVisit h)) : Sound (t.resolve h) :=
  hv.bind fun v _ => .ok v.node

theorem Describes.layout_sound {statement body : Node} (h : t.Describes f statement body)
    (ht : t.Resolves) : Sound (t.layout f) := by
  obtain ⟨hbody, hstatement⟩ := h.visits_sound ht
  refine (resolve_sound hbody).bind fun body _ => ?_
  split
  · split
    · exact .ok _
    · exact .ok _
  · exact (resolve_sound hstatement).bind fun statement _ => .ok _

theorem Describes.checkNames_sound {statement body : Node} (h : t.Describes f statement body)
    (ht : t.Resolves) (names : List String) : Sound (t.checkNames f names) := by
  have hnames : Sound (t.namesIn f) := by
    refine (h.visits_sound ht).1.bind fun body _ => ?_
    split
    · exact .ok _
    · split
      case h_1 => exact .ok _
      case h_2 p hp =>
        obtain ⟨n, hn, rfl⟩ := h.parameters p (Option.mem_def.mpr hp)
        exact (ht.resolve hn).bind fun ps _ => .ok _
  refine hnames.bind fun declared _ => ?_
  dsimp only
  split
  · exact .ok _
  · exact .error id

end Source.Tree

namespace Hook

variable {statement body : Node} (hdescribes : t.Describes f statement body) (ht : t.Resolves)
include hdescribes ht

theorem statementEdit_sound (s : String) (r : Nat) (indent : String) :
    Sound (statementEdit t f s r indent) := by
  obtain ⟨hbody, hstatement⟩ := hdescribes.visits_sound ht
  refine (Tree.resolve_sound hbody).bind fun body _ => ?_
  split
  · dsimp only
    split
    · exact .ok _
    · exact .ok _
  · exact (Tree.resolve_sound hstatement).bind fun outer _ => .ok _

theorem reducerEdit_sound (name : String) (actions : List ReducerAction) (unit : String) :
    Sound (reducerEdit t f name actions unit) := by
  refine (hdescribes.visits_sound ht).2.bind fun v _ => ?_
  split
  all_goals
    dsimp only
    split
    · exact .error id
    · exact .ok _

theorem edits_sound (h : Hook) : Sound (edits t f h) := by
  refine (hdescribes.layout_sound ht).bind fun layout _ => ?_
  refine (hdescribes.checkNames_sound ht h.declares).bind fun _ _ => ?_
  refine (statementEdit_sound hdescribes ht ..).bind fun edit _ => ?_
  split
  · exact (reducerEdit_sound hdescribes ht ..).bind fun reducer _ => .ok _
  · exact .ok _

end Hook

namespace Import

variable {spec : ImportSpec} {imports : List Source.Import}

theorem checkDefault_sound (spec : ImportSpec) (imports : List Source.Import) :
    Sound (checkDefault spec imports) := by
  unfold checkDefault
  split
  · split
    · exact .ok _
    · exact .error id
  · exact .ok _

theorem checkName_sound (t : Tree) (imports : List Source.Import) (source name : String) :
    Sound (checkName t imports source name) := by
  unfold checkName
  split
  · exact .error id
  · dsimp only
    split
    · exact .error id
    · exact .ok _

theorem plan_sound (ht : t.Built) (spec : ImportSpec) : Sound (plan t spec) := by
  have hpresent (i : Source.Import) (hi : i ∈ fromSource spec.source t.imports) : i ∈ t.imports :=
    mem_of_mem_present hi
  unfold plan
  split
  · split
    · exact .ok _
    · exact .ok _
  · refine (checkDefault_sound ..).bind fun _ _ => ?_
    refine (Sound.forM (fun name => checkName_sound ..) _).bind fun _ _ => ?_
    refine (Sound.of_eq_ok (exists_addEntries ht hpresent ..)).bind fun entries _ => ?_
    dsimp only
    split
    · split
      · exact .ok _
      · exact (Sound.of_eq_ok (exists_addDefault ht hpresent _)).bind fun default _ => .ok _
    · exact .ok _

theorem mergeInto_sound (ht : t.Built) (d : Draft) (spec : ImportSpec) : Sound (mergeInto d t spec) := by
  refine (plan_sound ht spec).bind fun es hes => ?_
  split
  · exact .ok _
  · exact Tree.edited_sound (plan_applicable ht.regular hes)

theorem merge_sound (d : Draft) (spec : ImportSpec) : (merge d spec).Sound :=
  d.tree_sound fun _ ht => .liftM (mergeInto_sound ht d spec)

theorem specOf_sound (content : String) (t : Tree) : Sound (specOf content t) := by
  unfold specOf
  dsimp only
  split
  · split
    · split
      · exact .error id
      · exact (Sound.payload _).bind fun _ _ => .ok _
    · exact .error id
  · exact .error id

theorem requested_sound (r : ImportRequest) : (requested r).Sound := by
  unfold requested
  split
  · exact .lifted (.payload _) fun _ _ => .pure _
  · exact .bind (.lenient ..) fun t => .liftM (specOf_sound _ t)

theorem add_sound (d : Draft) (r : ImportRequest) : (add d r).Sound := by
  refine .bind (requested_sound r) fun spec => d.tree_sound fun t ht => ?_
  refine .lifted (mergeInto_sound ht d spec) fun text _ => ?_
  dsimp only
  split
  · exact .pure _
  · exact .pure _

end Import

theorem Hook.add_sound (d : Draft) (h : Hook) (component : Option String) :
    (Hook.add d h component).Sound := by
  refine d.tree_sound fun t ht => .lifted (t.component_sound component) fun f hf => ?_
  obtain ⟨statement, body, hdescribes⟩ := Tree.exists_describes hf
  refine .lifted (edits_sound hdescribes (ht.resolves_of_component hf) h) fun es hes => ?_
  have hstage : (Operation.hook h component).Computes t es := .hook hf hes
  refine .lifted (Tree.edited_sound (hstage.applicable ht.regular)) fun text _ => ?_
  refine .bind (d.advance text |>.tree_sound fun t ht => ?_) fun text => .pure _
  split
  · exact .pure _
  · exact .liftM (Import.mergeInto_sound ht ..)

namespace Element

variable {opening : Node}

theorem attributesEnd_sound (opening : Node) : Sound (attributesEnd opening) := by
  unfold attributesEnd
  dsimp only
  split
  · exact .ok _
  · exact .error id

theorem classEdit_sound (t : Tree) (opening : Node) (rendered : String) :
    Sound (classEdit t opening rendered) := by
  unfold classEdit
  split
  · exact .ok _
  · exact (attributesEnd_sound opening).bind fun offset _ => .ok _

theorem propEdit_sound (t : Tree) (opening : Node) (target name : String) (value : Option String)
    (action : PropAction) : Sound (propEdit t opening target name value action) := by
  cases action with
  | add =>
    rw [propEdit]
    split
    · exact .error id
    · exact (attributesEnd_sound opening).bind fun offset _ => .ok _
  | update =>
    rw [propEdit]
    split
    · exact .ok _
    · exact .error id
  | remove =>
    rw [propEdit]
    split
    · exact .ok _
    · exact .error id

theorem childEdit_sound (t : Tree) (n : Node) (jsx : String) (atStart : Bool) (unit : String) :
    Sound (childEdit t n jsx atStart unit) := by
  unfold childEdit
  split
  · dsimp only
    split
    · exact .ok _
    · exact .ok _
  · exact .error id

theorem insertionEdit_sound (t : Tree) (v : Visit) (tag target jsx : String) (position : Position) :
    Sound (insertionEdit t v tag target jsx position) := by
  unfold insertionEdit
  dsimp only
  split
  · unfold siblingEdit
    dsimp only
    split
    · split
      · exact .ok _
      · exact .ok _
    · exact .error id
  · split
    · exact .ok _
    · exact childEdit_sound ..

/-- The handles that describe an element resolve. -/
theorem resolve_sound (ht : t.Built) {target : String} {e : Element}
    (he : t.element target = .ok e) :
    Sound (t.resolveVisit e.handle) ∧ Sound (t.resolve e.opening) := by
  obtain ⟨n, hn, helement, rfl⟩ := Tree.exists_of_element he
  have hall := ht.resolves_of_element hn helement
  refine ⟨hall.resolveVisit hn, ?_⟩
  cases hopening : openingTag? n with
  | none =>
    have hhandle : (t.elementOf n).opening = t.handle n := by simp [Tree.elementOf, hopening]
    rw [hhandle]
    exact hall.resolve hn
  | some opening =>
    have hhandle : (t.elementOf n).opening = t.handle opening := by simp [Tree.elementOf, hopening]
    rw [hhandle]
    exact hall.resolve (mem_walk_trans hn (Tree.openingTag?_mem_walk hopening))

theorem changeClasses_sound (d : Draft) (target : String) (static : List String)
    (condition : Option ClassCondition) (raw : Option String) :
    (changeClasses d target static condition raw).Sound := by
  refine d.tree_sound fun t ht => .lifted (t.element_sound target) fun element helement => ?_
  refine .lifted (resolve_sound ht helement).2 fun opening hopening => ?_
  refine .lifted (classEdit_sound ..) fun e he => ?_
  have hstage : (Operation.element target (.classes static condition raw)).Computes t [e] :=
    .classes helement hopening he
  exact .lifted (Tree.edited_sound (hstage.applicable ht.regular)) fun text _ => .pure _

theorem insert_sound (d : Draft) (target jsx : String) (position : Position) :
    (insert d target jsx position).Sound := by
  have hcheck : (checkFragment jsx).Sound := by
    refine .bind (.lenient ..) fun probe => ?_
    split
    · exact .throw id
    · exact .pure _
  refine .bind hcheck fun _ => d.tree_sound fun t ht => ?_
  refine .lifted (t.element_sound target) fun element helement => ?_
  refine .lifted (resolve_sound ht helement).1 fun v hv => ?_
  refine .lifted (insertionEdit_sound ..) fun e he => ?_
  have hstage : (Operation.element target (.insert jsx position)).Computes t [e] :=
    .insertion helement hv he
  exact .lifted (Tree.edited_sound (hstage.applicable ht.regular)) fun text _ => .pure _

theorem changeProp_sound (d : Draft) (target name : String) (action : PropAction)
    (value : Option String) : (changeProp d target name action value).Sound := by
  refine d.tree_sound fun t ht => .lifted (t.element_sound target) fun element helement => ?_
  refine .lifted (resolve_sound ht helement).2 fun opening hopening => ?_
  refine .lifted (propEdit_sound ..) fun e he => ?_
  have hstage : (Operation.element target (.prop name action value)).Computes t [e] :=
    .prop helement hopening he
  exact .lifted (Tree.edited_sound (hstage.applicable ht.regular)) fun text _ => .pure _

theorem wrap_sound (d : Draft) (target wrapper : String) (props : List (String × String))
    (spec : Option ImportSpec) : (wrap d target wrapper props spec).Sound := by
  refine d.tree_sound fun t ht => .lifted (t.element_sound target) fun element helement => ?_
  refine .lifted (Tree.resolve_sound (resolve_sound ht helement).1) fun n hn => ?_
  have hstage : (Operation.element target (.wrap wrapper props spec)).Computes t
      [wrapEdit t n wrapper props] :=
    .wrapper helement hn
  refine .lifted (Tree.edited_sound (hstage.applicable ht.regular)) fun text _ => ?_
  dsimp only
  split
  · exact .bind (Import.merge_sound ..) fun text => .pure _
  · exact .bind (.pure _) fun text => .pure _

end Element

namespace Template

theorem mergeAll_sound (d : Draft) (specs : List ImportSpec) : (mergeAll d specs).Sound := by
  induction specs generalizing d with
  | nil => exact .pure d
  | cons spec specs ih => exact .bind (Import.merge_sound d spec) fun text => ih _

theorem addModule_sound (d : Draft) (m : Module) (kind summary : String) :
    (addModule d m kind summary).Sound := by
  have hattach : (attach d m kind).Sound := by
    refine d.tree_sound fun t ht => .bind ?_ fun merged => .pure _
    cases m.imports with
    | nil => exact .pure d
    | cons spec specs =>
      exact .lifted (Import.mergeInto_sound ht d spec) fun text _ => mergeAll_sound ..
  unfold addModule
  split
  · exact .pure _
  · exact .bind hattach fun _ => .pure _

theorem addStore_sound (d : Draft) (s : Store) : (addStore d s).Sound := by
  unfold addStore
  dsimp only
  split
  · exact addModule_sound ..
  · exact .pure _

end Template

namespace Authentication

theorem addStates_sound (d : Draft) (component : Option String) (hooks : List Hook) :
    (addStates d component hooks).Sound := by
  induction hooks generalizing d with
  | nil => exact .pure d
  | cons h hs ih => exact .bind (Hook.add_sound d h component) fun outcome => ih _

theorem addHandlers_sound (d : Draft) (email : Bool) (component : Option String) :
    (addHandlers d email component).Sound := by
  refine d.tree_sound fun t ht => .lifted (t.component_sound component) fun f hf => ?_
  obtain ⟨statement, body, hdescribes⟩ := Tree.exists_describes hf
  have hall := ht.resolves_of_component hf
  have hedit : Sound (handlersEdit t f email) := by
    refine (hdescribes.checkNames_sound hall _).bind fun _ _ => ?_
    refine (hdescribes.layout_sound hall).bind fun l _ => ?_
    exact Hook.statementEdit_sound hdescribes hall ..
  refine .lifted hedit fun e he => .liftM (Tree.edited_sound ?_)
  exact (handlersEdit_within ht.regular he).applicable

theorem addForm_sound (d : Draft) (style : FormStyle) (email : Bool) (component : Option String) :
    (addForm d style email component).Sound := by
  refine d.tree_sound fun t ht => .lifted (t.component_sound component) fun f hf => ?_
  obtain ⟨statement, body, hdescribes⟩ := Tree.exists_describes hf
  have hall := ht.resolves_of_component hf
  have hbody := Tree.resolve_sound (hdescribes.visits_sound hall).1
  refine .lifted hbody fun body hbody => ?_
  split
  case h_1 => exact .throw id
  case h_2 first hfirst =>
    refine .lifted (hdescribes.layout_sound hall) fun l _ => ?_
    split
    case h_1 =>
      have hstage : (Operation.authentication style email component).Computes t
          [guardEdit t first style email l.unit] :=
        .guard hf hbody hfirst
      exact .lifted (Tree.edited_sound (hstage.applicable ht.regular)) fun text _ => .pure _
    case h_2 root hreturned =>
      have hbutton : Sound (buttonEdit t root style l.unit) := by
        unfold buttonEdit
        dsimp only
        split
        · exact .ok _
        · exact Element.childEdit_sound ..
      refine .lifted hbutton fun button hbutton => ?_
      have hstage : (Operation.authentication style email component).Computes t
          [guardEdit t first style email l.unit, button] :=
        .form hf hbody hfirst hreturned hbutton
      exact .lifted (Tree.edited_sound (hstage.applicable ht.regular)) fun text _ => .pure _

theorem add_sound (d : Draft) (style : FormStyle) (email : Bool) (component : Option String) :
    (add d style email component).Sound := by
  refine .bind (addStates_sound ..) fun d => .bind (addHandlers_sound ..) fun text => ?_
  exact .bind (addForm_sound ..) fun _ => .pure _

end Authentication

namespace Extraction

theorem locate_sound (ht : t.Built) (target : String) : Sound (locate t target) := by
  unfold locate
  dsimp only
  split
  · exact (t.element_sound _).bind fun element helement => (Element.resolve_sound ht helement).1
  · split
    · exact .ok _
    · exact .error id

theorem interfaceOf_sound (t : Tree) (v : Visit) (extractProps : Bool) (source dest : String) :
    Sound (interfaceOf t v extractProps source dest) := by
  have hgroup (g : Group) : Sound (renderGroup g) := (Sound.payload _).bind fun _ _ => .ok _
  unfold interfaceOf reimports
  refine .bind ?_ fun statements _ => .ok _
  exact (Sound.mapM hgroup _).bind fun rendered _ => .ok _

theorem extract_sound (d : Draft) (e : Extraction) : (extract d e).Sound := by
  refine d.tree_sound fun t ht => .lifted (locate_sound ht e.jsx) fun v hv => ?_
  have hedit (face : Interface) : Sound (t.edited [usageEdit v.node e.component face.props]) := by
    have hstage : (Operation.extract e).Computes t [usageEdit v.node e.component face.props] :=
      .extracted hv
    exact Tree.edited_sound (hstage.applicable ht.regular)
  extract_lets file
  split
  · exact .bind (.throw id) fun _ => .lifted (interfaceOf_sound ..) fun face _ =>
      .lifted (hedit face) fun text _ => .bind (Import.merge_sound ..) fun text => .pure _
  · refine .lifted (interfaceOf_sound ..) fun face _ => .lifted (hedit face) fun text _ => ?_
    exact .bind (Import.merge_sound ..) fun text => .pure _

end Extraction

theorem TextChange.apply_sound (d : Draft) (change : TextChange) : Sound (change.apply d) := by
  have haround (pattern : String) : Sound (around d.text pattern) := by
    unfold around
    split
    · exact .ok _
    · exact .error id
  refine .bind ?_ fun text _ => .ok _
  cases change with
  | append content => exact .ok _
  | insertBefore pattern content => exact (haround pattern).bind fun _ _ => .ok _
  | insertAfter pattern content => exact (haround pattern).bind fun _ _ => .ok _
  | replace pattern replacement => exact (haround pattern).bind fun _ _ => .ok _
  | delete pattern => exact (haround pattern).bind fun _ _ => .ok _

/-- No operation fails with a defect. -/
theorem Operation.apply_sound (d : Draft) (op : Operation) : (op.apply d).Sound := by
  unfold apply
  split
  · exact .throw id
  · cases op with
    | hook h component => exact Hook.add_sound ..
    | addImport r => exact Import.add_sound ..
    | element target change =>
      cases change with
      | classes static condition raw => exact Element.changeClasses_sound ..
      | insert jsx position => exact Element.insert_sound ..
      | prop name action value => exact Element.changeProp_sound ..
      | wrap wrapper props spec => exact Element.wrap_sound ..
    | context c => exact Template.addModule_sound ..
    | store s => exact Template.addStore_sound ..
    | authentication style email component => exact Authentication.add_sound ..
    | extract e => exact Extraction.extract_sound ..
    | text change => exact .liftM (change.apply_sound d)

/-- Handles are exact: a node that is not empty is found again by its handle, up to other nodes of its kind
with its span, in the tree of its version and in no other, and no operation resolves any other handle than
those of its current tree. -/
theorem Source.Tree.handles_exact :
    (∀ (t : Tree) (root n : Node), t.root = .ok root → root.Nested → n ∈ root.walk →
      n.start < n.stop →
        ∃ m ∈ root.walk, t.resolve (t.handle n) = .ok m ∧ m.kind.name = n.kind.name ∧ m.span = n.span) ∧
    (∀ (t : Tree) (h : Handle), h.version ≠ t.version →
      t.resolve h = .error (.staleHandle h.kind h.version t.version)) ∧
    ∀ (d : Draft) (op : Operation) (r : Reader), r.Exact → ∀ e, ((op.apply d).on r).1 = .error e →
      (∀ kind version current, e ≠ .staleHandle kind version current) ∧
        ∀ kind start stop, e ≠ .noNode kind start stop := by
  refine ⟨fun t root n hroot hnested hn hne => ?_, fun t h hversion => ?_, fun d op r hr e he => ?_⟩
  · obtain ⟨v, hv⟩ := exists_resolveVisit_handle hroot hnested hn hne
    obtain ⟨hmem, hspan, hkind⟩ := resolveVisit_eq_ok hv
    rw [rootD_of_root hroot] at hmem
    exact ⟨v.node, hmem, resolve_of_resolveVisit hv, hkind, hspan⟩
  · rw [resolve, resolveVisit_of_version_ne hversion]
    rfl
  · have hsound := ((Operation.apply_sound d op).failure r hr).failure e he
    constructor
    · rintro kind version current rfl
      exact hsound trivial
    · rintro kind start stop rfl
      exact hsound trivial

/-- A program whose statement and expression have the same span as the program. -/
def oneName : Tree := .build 1 .tsx ['a']

/-- A state variable for a component, of which a program may have none. -/
def countState : Operation := .hook (.state "count" "setCount" "0" none) none

theorem exists_countState_error :
    ∃ e, ((countState.apply ⟨"a.tsx", .tsx, "a"⟩).on .plain).1 = .error e := by
  have hfails : ((countState.apply ⟨"a.tsx", .tsx, "a"⟩).on .plain).1.isOk = false := by decide +kernel
  cases he : ((countState.apply ⟨"a.tsx", .tsx, "a"⟩).on .plain).1 with
  | ok o => simp [he, Except.isOk, Except.toBool] at hfails
  | error e => exact ⟨e, rfl⟩

theorem oneName_statement_found :
    oneName.root = .ok oneName.rootD ∧
      (∃ n ∈ oneName.rootD.walk, n.is .expressionStatement = true ∧
        ∃ m ∈ oneName.rootD.walk, oneName.resolve (oneName.handle n) = .ok m ∧
          m.kind.name = n.kind.name ∧ m.span = n.span) ∧
      oneName.resolve ⟨2, ⟨0, 1⟩, "identifier"⟩ = .error (.staleHandle "identifier" 2 1) ∧
      Reader.plain.Exact ∧ ∃ e, ((countState.apply ⟨"a.tsx", .tsx, "a"⟩).on .plain).1 = .error e ∧
        (∀ kind version current, e ≠ .staleHandle kind version current) ∧
          ∀ kind start stop, e ≠ .noNode kind start stop := by
  have hok : oneName.root.isOk = true := by decide +kernel
  have hnested : oneName.rootD.Nested := by decide +kernel
  have hwalk : oneName.rootD.walk[1]?.map (fun n => (n.is .expressionStatement, n.span)) =
      some (true, ⟨0, 1⟩) := by
    decide +kernel
  have hroot := Tree.root_of_isOk hok
  obtain ⟨n, hget, hn⟩ := Option.map_eq_some_iff.mp hwalk
  obtain ⟨hstatement, hspan⟩ := Prod.mk.inj hn
  have hmem := List.mem_of_getElem? hget
  have hne : n.start < n.stop := by
    rw [Node.start, Node.stop, hspan]
    decide
  obtain ⟨hfound, hstale, hnever⟩ := Tree.handles_exact
  refine ⟨hroot, ⟨n, hmem, hstatement, hfound oneName _ n hroot hnested hmem hne⟩,
    hstale oneName ⟨2, ⟨0, 1⟩, "identifier"⟩ (by decide), Reader.exact_plain, ?_⟩
  obtain ⟨e, he⟩ := exists_countState_error
  exact ⟨e, he, hnever _ _ _ Reader.exact_plain e he⟩

/-- What the stages of an operation compute from a regular tree can be applied: the edits lie within the
text, on boundaries of characters, and no two of them overlap. So no operation fails for its edits. -/
theorem Operation.stages_applicable :
    (∀ (t : Tree) (root : Node), t.root = .ok root → root.Regular t.chars →
      ∀ (op : Operation) (es : List Edit), op.Computes t es →
        (∀ e ∈ es, e.start ≤ e.stop ∧ e.stop ≤ byteSize t.chars ∧ Boundary t.chars e.start ∧
          Boundary t.chars e.stop) ∧
        (es.Pairwise fun a b => a.stop ≤ b.start ∨ b.stop ≤ a.start) ∧
        ∃ text, t.edited es = .ok text) ∧
    ∀ (d : Draft) (op : Operation) (r : Reader), r.Exact → ∀ e, ((op.apply d).on r).1 = .error e →
      (∀ start stop, e ≠ .overlap start stop) ∧ e ≠ .cutCharacter := by
  refine ⟨fun t root hroot hregular op es hes => ?_, fun d op r hr e he => ?_⟩
  · rw [← Tree.rootD_of_root hroot] at hregular
    have h := hes.applicable hregular
    refine ⟨fun e he => ?_, h.apart, h.applyAll_eq_ok⟩
    exact ⟨h.start_le_stop e he, h.stop_le e he, h.start e he, h.stop e he⟩
  · have hsound := ((apply_sound d op).failure r hr).failure e he
    constructor
    · rintro start stop rfl
      exact hsound trivial
    · rintro rfl
      exact hsound trivial

/-- A module that imports one name. -/
def oneImport : Tree := .build 1 .tsx "import \x7b b \x7d from 'm';".toList

/-- A request for another name, the default and the whole of the same module. -/
def threeBindings : ImportRequest := ⟨some "m", some "d", ["c"], some "n", none⟩

/-- The plan for it has three edits, the second of which comes first in the text. -/
theorem oneImport_edits_apart :
    let es : List Edit :=
      [.insert 10 ", c", .insert 7 "d, ", .insert 22 "\nimport * as n from 'm';"]
    oneImport.root = .ok oneImport.rootD ∧ oneImport.rootD.Regular oneImport.chars ∧
      (Operation.addImport threeBindings).Computes oneImport es ∧
      (es.Pairwise fun a b => a.stop ≤ b.start ∨ b.stop ≤ a.start) ∧
      (∃ text, oneImport.edited es = .ok text) ∧
      Reader.plain.Exact ∧ ∃ e, ((countState.apply ⟨"a.tsx", .tsx, "a"⟩).on .plain).1 = .error e ∧
        (∀ start stop, e ≠ .overlap start stop) ∧ e ≠ .cutCharacter := by
  have hok : oneImport.root.isOk = true := by decide +kernel
  have hspec : ((Import.requested threeBindings).on .plain).1.toOption = some threeBindings.spec := by
    decide +kernel
  have hplan : (Import.plan oneImport threeBindings.spec).toOption =
      some [.insert 10 ", c", .insert 7 "d, ", .insert 22 "\nimport * as n from 'm';"] := by
    decide +kernel
  have hroot := Tree.root_of_isOk hok
  have hresult {α : Type} {x : Except Failure α} {a : α} (h : x.toOption = some a) : x = .ok a := by
    cases x with
    | error e => cases h
    | ok b =>
      cases h
      rfl
  have hregular : oneImport.rootD.Regular oneImport.chars := (Tree.built_build _ _ _).regular
  have hes := Operation.Computes.imports (.statement .plain (hresult hspec)) (hresult hplan)
  obtain ⟨hstages, hnever⟩ := Operation.stages_applicable
  obtain ⟨-, hapart, hedited⟩ := hstages oneImport _ hroot hregular _ _ hes
  refine ⟨hroot, hregular, hes, hapart, hedited, Reader.exact_plain, ?_⟩
  obtain ⟨e, he⟩ := exists_countState_error
  exact ⟨e, he, hnever _ _ _ Reader.exact_plain e he⟩

end SourceChange
