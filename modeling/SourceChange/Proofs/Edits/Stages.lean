import SourceChange.Operation.Apply
import SourceChange.Proofs.Edits.Imports
import SourceChange.Proofs.Reading

/-!
The stages of operations.

Every structural operation edits its draft in one or more stages, and each stage computes its edits from
the tree of the text as it stands then. `Operation.Computes` lists them: which edits an operation may
compute from a tree. In a regular tree these can always be applied together.
-/

namespace SourceChange

open Source Syntax Syntax.Node

namespace Operation

/-- The requests that an operation merges into the imports of a file. -/
inductive Requests : Operation → ImportSpec → Prop where
  | hook (h : Hook) (component : Option String) :
    Requests (.hook h component) (.named "react" [Hook.callee h])
  | statement {r : ImportRequest} {spec : ImportSpec} (reader : Reader)
    (h : ((Import.requested r).on reader).1 = .ok spec) : Requests (.addImport r) spec
  | wrapper (target wrapper : String) (props : List (String × String)) (spec : ImportSpec) :
    Requests (.element target (.wrap wrapper props (some spec))) spec
  | context {c : ContextProvider} {typed : Bool} {spec : ImportSpec}
    (h : spec ∈ (Template.contextModule c typed).imports) : Requests (.context c) spec
  | store {s : Store} {typed : Bool} {spec : ImportSpec}
    (h : spec ∈ (Template.storeModule s typed).imports) : Requests (.store s) spec
  | state {style : FormStyle} {email : Bool} {component : Option String} {h : Hook}
    (hstate : h ∈ Authentication.states email) :
    Requests (.authentication style email component) (.named "react" [Hook.callee h])
  | extracted (e : Extraction) (target : String) : Requests (.extract e) (.named target [e.component])

/-- The edits that an operation computes from a tree in one of its stages. -/
inductive Computes (t : Tree) : Operation → List Edit → Prop where
  | imports {op : Operation} {spec : ImportSpec} {es : List Edit} (hrequest : op.Requests spec)
    (hes : Import.plan t spec = .ok es) : Computes t op es
  | hook {h : Hook} {component : Option String} {f : Source.Function} {es : List Edit}
    (hf : t.component component = .ok f) (hes : Hook.edits t f h = .ok es) :
    Computes t (.hook h component) es
  | classes {target : String} {static : List String} {condition : Option ClassCondition}
    {raw : Option String} {element : Element} {opening : Node} {rendered : String} {e : Edit}
    (helement : t.element target = .ok element) (hopening : t.resolve element.opening = .ok opening)
    (he : Element.classEdit t opening rendered = .ok e) :
    Computes t (.element target (.classes static condition raw)) [e]
  | insertion {target jsx : String} {position : Position} {element : Element} {v : Visit} {e : Edit}
    (helement : t.element target = .ok element) (hv : t.resolveVisit element.handle = .ok v)
    (he : Element.insertionEdit t v element.tag target jsx position = .ok e) :
    Computes t (.element target (.insert jsx position)) [e]
  | prop {target name : String} {action : PropAction} {value : Option String} {element : Element}
    {opening : Node} {e : Edit} (helement : t.element target = .ok element)
    (hopening : t.resolve element.opening = .ok opening)
    (he : Element.propEdit t opening target name value action = .ok e) :
    Computes t (.element target (.prop name action value)) [e]
  | wrapper {target wrapper : String} {props : List (String × String)} {spec : Option ImportSpec}
    {element : Element} {n : Node} (helement : t.element target = .ok element)
    (hn : t.resolve element.handle = .ok n) :
    Computes t (.element target (.wrap wrapper props spec)) [Element.wrapEdit t n wrapper props]
  | state {style : FormStyle} {email : Bool} {component : Option String} {h : Hook}
    {f : Source.Function} {es : List Edit} (hstate : h ∈ Authentication.states email)
    (hf : t.component component = .ok f) (hes : Hook.edits t f h = .ok es) :
    Computes t (.authentication style email component) es
  | handlers {style : FormStyle} {email : Bool} {component : Option String} {f : Source.Function}
    {e : Edit} (hf : t.component component = .ok f)
    (he : Authentication.handlersEdit t f email = .ok e) :
    Computes t (.authentication style email component) [e]
  | guard {style : FormStyle} {email : Bool} {component : Option String} {f : Source.Function}
    {body first : Node} {unit : String} (hf : t.component component = .ok f)
    (hbody : t.resolve f.body = .ok body)
    (hfirst : body.named.find? (·.is .returnStatement) = some first) :
    Computes t (.authentication style email component)
      [Authentication.guardEdit t first style email unit]
  | form {style : FormStyle} {email : Bool} {component : Option String} {f : Source.Function}
    {body first root : Node} {unit : String} {button : Edit} (hf : t.component component = .ok f)
    (hbody : t.resolve f.body = .ok body)
    (hfirst : body.named.find? (·.is .returnStatement) = some first)
    (hreturned : Authentication.returnedElement? first = some root)
    (hbutton : Authentication.buttonEdit t root style unit = .ok button) :
    Computes t (.authentication style email component)
      [Authentication.guardEdit t first style email unit, button]
  | extracted {e : Extraction} {v : Visit} {props : List String}
    (hv : Extraction.locate t e.jsx = .ok v) :
    Computes t (.extract e) [Extraction.usageEdit v.node e.component props]

end Operation

theorem Authentication.handlersEdit_within {t : Tree} (hroot : t.rootD.Regular t.chars)
    {f : Source.Function} {email : Bool} {e : Edit} (he : handlersEdit t f email = .ok e) :
    e.Within t.chars f.body.span.start (byteSize t.chars) := by
  obtain ⟨-, -, he⟩ := bind_eq_ok_iff.mp he
  obtain ⟨l, -, he⟩ := bind_eq_ok_iff.mp he
  exact Hook.statementEdit_within hroot he

/-- What is extracted is a node of the tree. -/
theorem Extraction.locate_mem_walk {t : Tree} {target : String} {v : Visit}
    (hv : locate t target = .ok v) : v.node ∈ t.rootD.walk := by
  unfold locate at hv
  dsimp only at hv
  split at hv
  case isTrue =>
    obtain ⟨element, -, hv⟩ := bind_eq_ok_iff.mp hv
    exact (Tree.resolveVisit_eq_ok hv).1
  case isFalse =>
    split at hv
    case h_2 => cases hv
    case h_1 found hfound =>
      cases hv
      exact mem_walk_of_mem_visits (List.mem_of_find?_eq_some hfound)

/-- Whatever an operation computes from a regular tree can be applied. -/
theorem Operation.Computes.applicable {t : Tree} (hroot : t.rootD.Regular t.chars) {op : Operation}
    {es : List Edit} (h : op.Computes t es) : Edit.Applicable t.chars es := by
  cases h with
  | imports _ hes => exact Import.plan_applicable hroot hes
  | hook hf hes => exact Hook.edits_applicable hroot hf hes
  | classes _ hopening he =>
    have hmem := (Tree.resolve_eq_ok hopening).1
    exact (Element.classEdit_within hroot hmem he).applicable
  | insertion _ hv he =>
    have hmem := (Tree.resolveVisit_eq_ok hv).1
    exact (Element.insertionEdit_within hroot hmem he).applicable
  | prop _ hopening he =>
    have hmem := (Tree.resolve_eq_ok hopening).1
    exact (Element.propEdit_within hroot hmem he).applicable
  | wrapper _ hn => exact (hroot.within_replace (Tree.resolve_eq_ok hn).1 _).applicable
  | state _ hf hes => exact Hook.edits_applicable hroot hf hes
  | handlers _ he => exact (Authentication.handlersEdit_within hroot he).applicable
  | guard _ hbody hfirst =>
    have hpart := mem_walk_of_mem_named (List.mem_of_find?_eq_some hfirst)
    have hmem := mem_walk_trans (Tree.resolve_eq_ok hbody).1 hpart
    exact (hroot.within_insert_start hmem _).applicable
  | form _ hbody hfirst hreturned hbutton =>
    have hpart := mem_walk_of_mem_named (List.mem_of_find?_eq_some hfirst)
    have hmem := mem_walk_trans (Tree.resolve_eq_ok hbody).1 hpart
    exact Authentication.form_applicable hroot hmem hreturned hbutton
  | extracted hv =>
    exact (hroot.within_replace (Extraction.locate_mem_walk hv) _).applicable

end SourceChange
