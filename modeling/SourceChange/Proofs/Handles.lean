import Mathlib.Data.Option.Basic
import SourceChange.Proofs.Cache
import SourceChange.Proofs.Except
import SourceChange.Proofs.Syntax.Trees
import SourceChange.Source.Component
import SourceChange.Source.Locate

/-!
Handles and the nodes they name.

A handle that resolves names a node of the tree with its span and kind. In a tree with nested spans every
handle of a node that is not empty resolves: the way down to the span passes the node, and before it only
nodes of the same span. What a tree says about its functions and elements are handles of its own nodes.
-/

namespace SourceChange

namespace Syntax.Node

variable {n root : Node} {above : List Node} {v : Visit}

theorem mem_visitsUnderAll {ns : List Node} :
    v ∈ visitsUnderAll above ns ↔ ∃ n ∈ ns, v ∈ visitsUnder above n := by
  induction ns with
  | nil => simp [visitsUnderAll]
  | cons n ns ih => simp [visitsUnderAll, ih]

theorem mem_visitsUnder :
    v ∈ visitsUnder above n ↔
      v = ⟨n, above⟩ ∨ ∃ c ∈ n.children, v ∈ visitsUnder (n :: above) c := by
  cases n
  rw [visitsUnder, List.mem_cons, mem_visitsUnderAll]
  rfl

/-- A node that is met lies below all its ancestors. -/
theorem mem_walk_of_mem_visitsUnder (hv : v ∈ visitsUnder above n) :
    v.node ∈ n.walk ∧ ∀ a ∈ v.ancestors, a ∈ above ∨ a ∈ n.walk ∧ v.node ∈ a.walk := by
  -- a child is met with its parent among the ancestors, so these cannot stay fixed
  induction hdepth : n.depth using Nat.strongRecOn generalizing n above with
  | ind depth ih =>
    obtain rfl | ⟨c, hc, hv⟩ := mem_visitsUnder.mp hv
    · exact ⟨n.self_mem_walk, fun a ha => .inl ha⟩
    · obtain ⟨hnode, habove⟩ := ih c.depth (hdepth ▸ depth_child_lt hc) hv rfl
      have hmem := mem_walk_of_child hc hnode
      refine ⟨hmem, fun a ha => ?_⟩
      obtain ha | ⟨ha, hbelow⟩ := habove a ha
      · obtain rfl | ha := List.mem_cons.mp ha
        · exact .inr ⟨a.self_mem_walk, hmem⟩
        · exact .inl ha
      · exact .inr ⟨mem_walk_of_child hc ha, hbelow⟩

theorem mem_walk_of_mem_visits (hv : v ∈ root.visits) : v.node ∈ root.walk :=
  (mem_walk_of_mem_visitsUnder hv).1

theorem ancestor_mem_walk (hv : v ∈ root.visits) {a : Node} (ha : a ∈ v.ancestors) :
    a ∈ root.walk ∧ v.node ∈ a.walk := by
  obtain hnone | habove := (mem_walk_of_mem_visitsUnder hv).2 a ha
  · cases hnone
  · exact habove

theorem mem_walk_of_child? {r : Role} {c : Node} (h : n.child? r = some c) : c ∈ n.walk :=
  child_mem_walk (List.mem_of_find?_eq_some h)

theorem child_mem_of_parameters? {p : Node} (hp : n.parameters? = some p) : p ∈ n.children := by
  rw [parameters?, Option.orElse_eq_orElse, Option.orElse_eq_or] at hp
  obtain hlist | ⟨-, hname⟩ := Option.or_eq_some_iff.mp hp
  · exact List.mem_of_find?_eq_some hlist
  · exact List.mem_of_find?_eq_some hname

theorem mem_walk_of_mem_named {c : Node} (h : c ∈ n.named) : c ∈ n.walk :=
  child_mem_walk (List.mem_filter.mp h).1

end Syntax.Node

namespace Source

open Syntax Syntax.Node

theorem enclosingStatement_eq_or_mem (n : Node) (above : List Node) :
    enclosingStatement n above = n ∨ enclosingStatement n above ∈ above := by
  induction above generalizing n with
  | nil => exact .inl rfl
  | cons p above ih =>
    rw [enclosingStatement]
    split
    · exact .inl rfl
    · refine .inr ?_
      obtain heq | hmem := ih p
      · rw [heq]
        exact List.mem_cons_self
      · exact List.mem_cons_of_mem p hmem

namespace Tree

variable {t : Tree} {h : Handle} {n root : Node} {v : Visit}

theorem rootD_of_root (hroot : t.root = .ok root) : t.rootD = root := by
  unfold Tree.root at hroot
  unfold rootD
  split at hroot
  case h_1 heq =>
    rw [heq]
    exact Except.ok.inj hroot
  all_goals cases hroot

theorem root_of_isOk (h : t.root.isOk = true) : t.root = .ok t.rootD := by
  cases hroot : t.root with
  | error e => simp [hroot, Except.isOk, Except.toBool] at h
  | ok root => rw [rootD_of_root hroot]

theorem findOn_eq_some {path : List Node} (hfind : findOn h path = some v) :
    v.node ∈ path ∧ v.node.span = h.span ∧ v.node.kind.name = h.kind := by
  induction path with
  | nil => cases hfind
  | cons n above ih =>
    rw [findOn] at hfind
    split at hfind
    case isFalse => cases hfind
    case isTrue hspan =>
      split at hfind
      case isTrue hkind =>
        cases hfind
        exact ⟨List.mem_cons_self, eq_of_beq hspan, eq_of_beq hkind⟩
      case isFalse =>
        obtain ⟨hmem, hv⟩ := ih hfind
        exact ⟨List.mem_cons_of_mem n hmem, hv⟩

/-- A node is found behind any nodes of its span; one of these may be found instead of it. -/
theorem exists_findOn (t : Tree) (n : Node) (above : List Node) {below : List Node}
    (hbelow : ∀ b ∈ below, b.span = n.span) :
    ∃ v, findOn (t.handle n) (below ++ n :: above) = some v := by
  induction below with
  | nil => exact ⟨⟨n, above⟩, by simp [findOn, handle]⟩
  | cons b below ih =>
    obtain ⟨hspan, hbelow⟩ := List.forall_mem_cons.mp hbelow
    obtain ⟨v, hv⟩ := ih hbelow
    have hsame : (b.span == (t.handle n).span) = true := beq_iff_eq.mpr hspan
    rw [List.cons_append, findOn, if_pos hsame]
    split
    · exact ⟨_, rfl⟩
    · exact ⟨v, hv⟩

/-- A handle that resolves names a node of the tree. -/
theorem resolveVisit_eq_ok (hv : t.resolveVisit h = .ok v) :
    v.node ∈ t.rootD.walk ∧ v.node.span = h.span ∧ v.node.kind.name = h.kind := by
  unfold resolveVisit at hv
  split at hv
  case isTrue => cases hv
  case isFalse =>
    obtain ⟨root, hroot, hv⟩ := bind_eq_ok_iff.mp hv
    dsimp only at hv
    split at hv
    case h_2 => cases hv
    case h_1 found hfind =>
      cases hv
      obtain ⟨hmem, hnames⟩ := findOn_eq_some hfind
      rw [rootD_of_root hroot]
      exact ⟨mem_walk_of_mem_cover hmem, hnames⟩

theorem resolve_of_resolveVisit (hv : t.resolveVisit h = .ok v) : t.resolve h = .ok v.node := by
  rw [resolve, hv]
  rfl

theorem resolve_eq_ok (hn : t.resolve h = .ok n) :
    n ∈ t.rootD.walk ∧ n.span = h.span ∧ n.kind.name = h.kind := by
  obtain ⟨v, hv, hn⟩ := bind_eq_ok_iff.mp hn
  cases hn
  exact resolveVisit_eq_ok hv

/-- A handle belongs to one version. -/
theorem resolveVisit_of_version_ne (hversion : h.version ≠ t.version) :
    t.resolveVisit h = .error (.staleHandle h.kind h.version t.version) := by
  unfold resolveVisit
  rw [if_pos (bne_iff_ne.mpr hversion)]

/-- The handle of a node that is not empty resolves in its tree. -/
theorem exists_resolveVisit_handle (hroot : t.root = .ok root) (hnested : root.Nested)
    (hn : n ∈ root.walk) (hne : n.start < n.stop) : ∃ v, t.resolveVisit (t.handle n) = .ok v := by
  -- on the way up from the smallest node that covers the span, all nodes before `n` have this span
  obtain ⟨below, above, hcover, hbelow⟩ := cover_eq hnested hn hne
  obtain ⟨v, hv⟩ := exists_findOn t n above fun b hb => (hbelow b hb).2
  refine ⟨v, ?_⟩
  have hversion : ¬ ((t.handle n).version != t.version) = true := by simp [handle]
  have hspan : (t.handle n).span = n.span := rfl
  unfold resolveVisit
  rw [if_neg hversion, hroot]
  simp only [bind, Except.bind, hspan, hcover, hv]

/-- Trees that hold what a parser has read. -/
def Built (t : Tree) : Prop := ∀ root, t.content = .parsed root → Parses t.chars root

theorem built_build (version : Nat) (language : Language) (chars : List Char) :
    (build version language chars).Built := by
  intro root hroot
  unfold build at hroot
  dsimp only at hroot
  split at hroot
  case h_1 => cases hroot
  case h_2 g _ =>
    cases hparse : g.parse? chars with
    | none =>
      rw [hparse] at hroot
      cases hroot
    | some other =>
      rw [hparse] at hroot
      cases hroot
      exact Grammar.parse?_parses hparse

theorem Built.rootD (ht : t.Built) :
    (t.root = .ok t.rootD ∧ Parses t.chars t.rootD) ∨ t.rootD = .mk Construct.program none ⟨0, byteSize t.chars⟩ [] := by
  cases hcontent : t.content with
  | parsed root =>
    have hrootD : t.rootD = root := by rw [Tree.rootD, hcontent]
    rw [hrootD]
    exact .inl ⟨by rw [Tree.root, hcontent], ht root hcontent⟩
  | _ => exact .inr (by rw [Tree.rootD, hcontent])

/-- Trees are regular. -/
theorem Built.regular (ht : t.Built) : t.rootD.Regular t.chars := by
  obtain ⟨-, hparses⟩ | hempty := ht.rootD
  · exact hparses.regular
  · rw [hempty]
    exact Grammar.program_regular (boundary_zero t.chars) (row_nil _ _) fun n hn => by cases hn

/-- The handles of all nodes of a tree resolve in it. -/
def Resolves (t : Tree) : Prop := ∀ n ∈ t.rootD.walk, ∃ v, t.resolveVisit (t.handle n) = .ok v

/-- A tree with anything in it is without empty nodes, so that all its handles resolve. -/
theorem Built.resolves (ht : t.Built) (hn : n ∈ t.rootD.walk) (hprogram : n.is .program = false) :
    t.Resolves := by
  obtain ⟨hroot, hparses⟩ | hempty := ht.rootD
  · intro m hm
    have hchildren : t.rootD.children ≠ [] := by
      intro hnone
      obtain rfl | ⟨c, hc, -⟩ := mem_walk.mp hn
      · simp [is, hparses.program] at hprogram
      · rw [hnone] at hc
        cases hc
    exact exists_resolveVisit_handle hroot hparses.regular.nested hm (hparses.solid hchildren m hm)
  · rw [hempty] at hn
    obtain rfl | ⟨c, hc, -⟩ := mem_walk.mp hn
    · cases hprogram
    · cases hc

end Tree

namespace Reader

variable {r : Reader}

theorem read_built (r : Reader) (language : Language) (text : String) :
    (r.read language text).1.Built := Tree.built_build _ _ _

theorem Exact.fileTree_built (h : r.Exact) (path : String) (language : Language) (text : String) :
    (r.fileTree path language text).1.Built := by
  unfold Reader.fileTree
  split
  case h_1 => exact r.read_built language text
  case h_2 cache hcache =>
    dsimp only
    split
    case h_1 tree cache' hget =>
      obtain ⟨version, other, -, -, htree⟩ := h cache hcache _ (mem_of_get_eq_some hget)
      obtain rfl : tree = Tree.build version language other.toList := htree
      exact Tree.built_build version language other.toList
    case h_2 => exact r.read_built language text

end Reader

namespace Tree

variable {t : Tree}

/-- A function described by handles of the nodes `statement` and `body`. -/
structure Describes (t : Tree) (f : Function) (statement body : Node) : Prop where
  statement_mem : statement ∈ t.rootD.walk
  body_mem : body ∈ statement.walk
  statement_eq : f.statement = t.handle statement
  body_eq : f.body = t.handle body
  parameters : ∀ h ∈ f.parameters, ∃ p ∈ t.rootD.walk, h = t.handle p

theorem describes_functionAt {v : Visit} (hv : v ∈ t.rootD.visits) (name : Option String)
    (declarator : Option Node) :
    ∃ statement body, t.Describes (t.functionAt v name declarator) statement body := by
  have hnode := mem_walk_of_mem_visits hv
  have hstatement : enclosingStatement v.node v.ancestors ∈ t.rootD.walk ∧
      v.node ∈ (enclosingStatement v.node v.ancestors).walk := by
    obtain heq | hmem := enclosingStatement_eq_or_mem v.node v.ancestors
    · rw [heq]
      exact ⟨hnode, v.node.self_mem_walk⟩
    · exact ancestor_mem_walk hv hmem
  have hbody : (v.node.child? .body).getD v.node ∈ v.node.walk := by
    cases hchild : v.node.child? .body with
    | none => exact v.node.self_mem_walk
    | some b => exact mem_walk_of_child? hchild
  refine ⟨_, _, hstatement.1, mem_walk_trans hstatement.2 hbody, rfl, rfl, fun h hh => ?_⟩
  obtain ⟨p, hp, rfl⟩ := Option.map_eq_some_iff.mp (Option.mem_def.mp hh)
  exact ⟨p, mem_walk_trans hnode (child_mem_walk (child_mem_of_parameters? hp)), rfl⟩

/-- What is described as a function is one. -/
theorem isFunction_of_functionOf? {v : Visit} {f : Function} (hf : t.functionOf? v = some f) :
    isFunction v.node = true := by
  have hmono {cs cs' : List Construct} (hsub : cs ⊆ cs') (h : v.node.isOneOf cs = true) :
      v.node.isOneOf cs' = true := by
    obtain ⟨c, hc, hkind⟩ := List.any_eq_true.mp h
    exact List.any_eq_true.mpr ⟨c, hsub hc, hkind⟩
  unfold functionOf? at hf
  dsimp only at hf
  rw [isFunction, Bool.or_eq_true]
  split at hf
  case isTrue hdeclaration => exact .inl (hmono (by decide) hdeclaration)
  case isFalse =>
    split at hf
    case isTrue hexpression =>
      obtain hone | htoken := Bool.or_eq_true_iff.mp hexpression
      · exact .inl (hmono (by decide) hone)
      · exact .inr htoken
    case isFalse => cases hf

theorem is_program_of_isFunction {n : Node} (h : isFunction n = true) : n.is .program = false := by
  rw [Bool.eq_false_iff]
  intro hprogram
  simp [isFunction, isOneOf, is, isToken, eq_of_beq hprogram] at h

theorem exists_of_functionOf? {v : Visit} {f : Function} (hf : t.functionOf? v = some f) :
    v.node.is .program = false ∧ ∃ name declarator, f = t.functionAt v name declarator := by
  refine ⟨is_program_of_isFunction (isFunction_of_functionOf? hf), ?_⟩
  unfold functionOf? at hf
  dsimp only at hf
  split at hf
  case isTrue =>
    cases hf
    exact ⟨_, _, rfl⟩
  case isFalse =>
    split at hf
    case isFalse => cases hf
    case isTrue =>
      split at hf
      case h_1 =>
        cases hf
        exact ⟨_, _, rfl⟩
      case h_2 =>
        split at hf
        case isTrue =>
          cases hf
          exact ⟨_, _, rfl⟩
        case isFalse => cases hf

theorem mem_functions_of_component {name : Option String} {f : Function}
    (hf : t.component name = .ok f) : f ∈ t.functions := by
  have hnamed {name : String} (h : t.functionNamed? name = some f) : f ∈ t.functions :=
    List.mem_of_find?_eq_some h
  have hdefault (h : t.defaultExported? = some f) : f ∈ t.functions := by
    unfold defaultExported? at h
    split at h
    case h_1 g hg =>
      cases h
      exact List.mem_of_find?_eq_some hg
    case h_2 =>
      obtain ⟨name, -, h⟩ := Option.bind_eq_some_iff.mp h
      exact hnamed h
  unfold component at hf
  split at hf
  case h_2 => cases hf
  case h_1 g hg =>
    cases hf
    cases name with
    | some name => exact hnamed hg
    | none =>
      simp only [component?, mainComponent?, Option.orElse_eq_orElse, Option.orElse_eq_or] at hg
      obtain h | ⟨-, h⟩ := Option.or_eq_some_iff.mp hg
      · exact hdefault h
      · obtain h | ⟨-, h⟩ := Option.or_eq_some_iff.mp h
        · exact List.mem_of_find?_eq_some h
        · exact List.mem_of_find?_eq_some h

/-- The component of a change is described by handles of the tree. -/
theorem exists_describes {name : Option String} {f : Function} (hf : t.component name = .ok f) :
    ∃ statement body, t.Describes f statement body := by
  obtain ⟨v, hv, hf⟩ := List.mem_filterMap.mp (mem_functions_of_component hf)
  obtain ⟨-, name, declarator, rfl⟩ := exists_of_functionOf? hf
  exact describes_functionAt hv name declarator

theorem Built.resolves_of_component {name : Option String} {f : Function} (ht : t.Built)
    (hf : t.component name = .ok f) : t.Resolves := by
  obtain ⟨v, hv, hf⟩ := List.mem_filterMap.mp (mem_functions_of_component hf)
  exact ht.resolves (mem_walk_of_mem_visits hv) (exists_of_functionOf? hf).1

/-- The element of a change is described by handles of the tree. -/
theorem exists_of_element {tag : String} {e : Element} (he : t.element tag = .ok e) :
    ∃ n ∈ t.rootD.walk, isElement n = true ∧ e = t.elementOf n := by
  unfold element at he
  split at he
  case h_2 => cases he
  case h_1 found hfind =>
    cases he
    obtain ⟨n, hn, rfl⟩ := List.mem_map.mp (List.mem_of_find?_eq_some hfind)
    obtain ⟨hn, helement⟩ := List.mem_filter.mp hn
    exact ⟨n, hn, helement, rfl⟩

theorem Built.resolves_of_element {n : Node} (ht : t.Built) (hn : n ∈ t.rootD.walk)
    (helement : isElement n = true) : t.Resolves := by
  refine ht.resolves hn ?_
  simp only [isElement, isOneOf, List.any_cons, List.any_nil, is, Bool.or_false,
    Bool.or_eq_true, beq_iff_eq] at helement ⊢
  obtain hkind | hkind := helement
  all_goals simp [hkind]

theorem openingTag?_mem_walk {n opening : Node} (h : openingTag? n = some opening) :
    opening ∈ n.walk := by
  unfold openingTag? at h
  split at h
  case isTrue =>
    cases h
    exact n.self_mem_walk
  case isFalse =>
    rw [Option.orElse_eq_orElse, Option.orElse_eq_or] at h
    obtain h | ⟨-, h⟩ := Option.or_eq_some_iff.mp h
    · exact mem_walk_of_child? h
    · exact child_mem_walk (List.mem_of_find?_eq_some h)

theorem closingTag?_mem_walk {n closing : Node} (h : closingTag? n = some closing) :
    closing ∈ n.walk := by
  unfold closingTag? at h
  split at h
  case isFalse => cases h
  case isTrue =>
    rw [Option.orElse_eq_orElse, Option.orElse_eq_or] at h
    obtain h | ⟨-, h⟩ := Option.or_eq_some_iff.mp h
    · exact mem_walk_of_child? h
    · exact child_mem_walk (List.mem_of_find?_eq_some h)

/-- An import is described by the handle of a statement of the program. -/
theorem exists_of_mem_imports {i : Import} (hi : i ∈ t.imports) :
    ∃ n ∈ t.rootD.children, n.is .importStatement = true ∧ i.handle = t.handle n := by
  obtain ⟨n, hn, rfl⟩ := List.mem_map.mp hi
  obtain ⟨hn, hstatement⟩ := List.mem_filter.mp hn
  exact ⟨n, (List.mem_filter.mp hn).1, hstatement, rfl⟩

theorem Built.resolves_of_import {i : Import} (ht : t.Built) (hi : i ∈ t.imports) : t.Resolves := by
  obtain ⟨n, hn, hstatement, -⟩ := exists_of_mem_imports hi
  refine ht.resolves (child_mem_walk hn) ?_
  simp only [is, beq_iff_eq] at hstatement ⊢
  simp [hstatement]

end Tree

end Source

/-- The tree of a draft was read from a text. -/
theorem Draft.tree_built {d : Draft} {r : Source.Reader} {t : Source.Tree} (hr : r.Exact)
    (ht : (d.tree.on r).1 = .ok t) : t.Built := by
  have hbuilt := hr.fileTree_built d.path d.language d.text
  rw [tree, Source.Reading.on_bind, Source.Reading.on_lenientFile] at ht
  dsimp only at ht
  split at ht
  · cases ht
  · rw [← Except.ok.inj ht]
    exact hbuilt

end SourceChange
