import SourceChange.Authentication.Scaffold
import SourceChange.Element.ClassName
import SourceChange.Element.Attribute
import SourceChange.Element.Insertion
import SourceChange.Extraction.Component
import SourceChange.Proofs.Edits.Apply
import SourceChange.Proofs.Handles
import SourceChange.Proofs.Text.Words

/-!
Where edits of bodies, elements and attributes go.

An edit lies `Within` two offsets if it starts and ends between them, on boundaries of characters. Every
edit starts or ends at a node of the tree, or just inside the brace of a block; so in a regular tree it lies
within the text, and within the node that it is about.
-/

namespace SourceChange

open Source Syntax Syntax.Node

namespace Source.Edit

/-- An edit between two offsets, on boundaries of characters. -/
structure Within (text : List Char) (lo hi : Nat) (e : Edit) : Prop where
  lo_le : lo ≤ e.start
  start_le_stop : e.start ≤ e.stop
  le_hi : e.stop ≤ hi
  start : Boundary text e.start
  stop : Boundary text e.stop

variable {text : List Char} {lo hi lo' hi' : Nat} {a b e : Edit}

theorem Within.mono (h : e.Within text lo hi) (hlo : lo' ≤ lo) (hhi : hi ≤ hi') :
    e.Within text lo' hi' := by
  obtain ⟨hlo', hle, hhi', hstart, hstop⟩ := h
  exact ⟨by omega, hle, by omega, hstart, hstop⟩

/-- Any edit lies within the text. -/
theorem Within.to_end (h : e.Within text lo hi) : e.Within text lo (byteSize text) :=
  ⟨h.lo_le, h.start_le_stop, h.stop.le, h.start, h.stop⟩

theorem within_insert {offset : Nat} (h : Boundary text offset) (s : String) :
    (Edit.insert offset s).Within text offset offset :=
  ⟨Nat.le_refl _, Nat.le_refl _, Nat.le_refl _, h, h⟩

theorem applicable_nil (text : List Char) : Applicable text [] := by
  constructor
  all_goals simp

theorem Within.applicable (h : e.Within text lo hi) : Applicable text [e] := by
  constructor
  · simpa using h.start_le_stop
  · simpa using h.stop.le
  · simpa using h.start
  · simpa using h.stop
  · exact List.pairwise_singleton _ e

/-- Edits may be joined if they lie apart. -/
theorem Applicable.append {xs ys : List Edit} (hxs : Applicable text xs) (hys : Applicable text ys)
    (hapart : ∀ x ∈ xs, ∀ y ∈ ys, x.stop ≤ y.start ∨ y.stop ≤ x.start) :
    Applicable text (xs ++ ys) := by
  constructor
  · exact List.forall_mem_append.mpr ⟨hxs.start_le_stop, hys.start_le_stop⟩
  · exact List.forall_mem_append.mpr ⟨hxs.stop_le, hys.stop_le⟩
  · exact List.forall_mem_append.mpr ⟨hxs.start, hys.start⟩
  · exact List.forall_mem_append.mpr ⟨hxs.stop, hys.stop⟩
  · exact List.pairwise_append.mpr ⟨hxs.apart, hys.apart, hapart⟩

/-- Two edits, the first of which lies before the second. -/
theorem applicable_pair {mid : Nat} (ha : a.Within text lo mid) (hb : b.Within text mid hi) :
    Applicable text [a, b] := by
  refine ha.applicable.append hb.applicable fun x hx y hy => .inl ?_
  obtain rfl := List.mem_singleton.mp hx
  obtain rfl := List.mem_singleton.mp hy
  exact Nat.le_trans ha.le_hi hb.lo_le

/-- Two edits, the second of which lies before the first. -/
theorem applicable_pair_swap {mid : Nat} (ha : a.Within text mid hi) (hb : b.Within text lo mid) :
    Applicable text [a, b] := by
  refine ha.applicable.append hb.applicable fun x hx y hy => .inr ?_
  obtain rfl := List.mem_singleton.mp hx
  obtain rfl := List.mem_singleton.mp hy
  exact Nat.le_trans hb.le_hi ha.lo_le

end Source.Edit

namespace Syntax.Node.Regular

variable {text : List Char} {root n m : Node} (hroot : root.Regular text)
include hroot

theorem inside (hn : n ∈ root.walk) (hm : m ∈ n.walk) : n.start ≤ m.start ∧ m.stop ≤ n.stop :=
  let h := (hroot.nested.of_mem_walk hn).2.2.of_mem_walk hm
  ⟨h.1, h.2.1⟩

theorem start_le_stop (hn : n ∈ root.walk) : n.start ≤ n.stop :=
  (hroot.nested.of_mem_walk hn).2.2.start_le_stop

theorem within_replace (hn : n ∈ root.walk) (s : String) :
    (⟨n.start, n.stop, s⟩ : Edit).Within text n.start n.stop :=
  ⟨Nat.le_refl _, hroot.start_le_stop hn, Nat.le_refl _, hroot.start n hn, hroot.stop n hn⟩

theorem within_insert_start (hn : n ∈ root.walk) (s : String) :
    (Edit.insert n.start s).Within text n.start n.start :=
  Edit.within_insert (hroot.start n hn) s

theorem within_insert_stop (hn : n ∈ root.walk) (s : String) :
    (Edit.insert n.stop s).Within text n.stop n.stop :=
  Edit.within_insert (hroot.stop n hn) s

/-- An edit of a part of a node lies within the node. -/
theorem within_part (hn : n ∈ root.walk) (hm : m ∈ n.walk) {lo hi : Nat} {e : Edit}
    (h : e.Within text lo hi) (hlo : m.start ≤ lo) (hhi : hi ≤ m.stop) :
    e.Within text n.start n.stop := by
  obtain ⟨hstart, hstop⟩ := hroot.inside hn hm
  exact h.mono (Nat.le_trans hstart hlo) (Nat.le_trans hhi hstop)

theorem within_part_start (hn : n ∈ root.walk) (hm : m ∈ n.walk) (s : String) :
    (Edit.insert m.start s).Within text n.start n.stop :=
  have hmem := mem_walk_trans hn hm
  hroot.within_part hn hm (hroot.within_insert_start hmem s) (Nat.le_refl _) (hroot.start_le_stop hmem)

theorem within_part_stop (hn : n ∈ root.walk) (hm : m ∈ n.walk) (s : String) :
    (Edit.insert m.stop s).Within text n.start n.stop :=
  have hmem := mem_walk_trans hn hm
  hroot.within_part hn hm (hroot.within_insert_stop hmem s) (hroot.start_le_stop hmem) (Nat.le_refl _)

/-- An insertion just inside the brace of a block. -/
theorem within_brace (hn : n ∈ root.walk) (hblock : n.is .statementBlock = true) (s : String) :
    (Edit.insert (n.start + 1) s).Within text n.start (byteSize text) :=
  (Edit.within_insert (hroot.brace n hn hblock).boundary_succ s).to_end.mono (Nat.le_succ _)
    (Nat.le_refl _)

end Syntax.Node.Regular

theorem mem_walk_of_mem_blockStatements {block s : Node} (hs : s ∈ blockStatements block) :
    s ∈ block.walk :=
  mem_walk_of_mem_named (List.mem_filter.mp hs).1

namespace Hook

theorem mem_of_mem_rankedHooks {t : Tree} {statements : List Node} {s : Node × Nat}
    (hs : s ∈ rankedHooks t statements) : s.1 ∈ statements := by
  obtain ⟨n, hn, heq⟩ := List.mem_filterMap.mp hs
  obtain ⟨name, -, rfl⟩ := Option.map_eq_some_iff.mp heq
  exact hn

variable {t : Tree} {f : Source.Function} {block body : Node} (hroot : t.rootD.Regular t.chars)
include hroot

theorem plainEdit_within (hblock : block ∈ t.rootD.walk) (his : block.is .statementBlock = true)
    (statement indent : String) :
    (plainEdit block (blockStatements block) statement indent).Within t.chars block.start
      (byteSize t.chars) := by
  have hafter {s : Node} (hs : s ∈ blockStatements block) (text : String) :=
    (hroot.within_part_stop hblock (mem_walk_of_mem_blockStatements hs) text).to_end
  unfold plainEdit
  dsimp only
  split
  case h_1 r hr =>
    split
    case h_1 s hs =>
      have hs := (List.mem_filter.mp (List.mem_of_getLast? hs)).1
      exact hafter (List.mem_filter.mp hs).1 _
    case h_2 =>
      have hr := mem_walk_of_mem_blockStatements (List.mem_of_find?_eq_some hr)
      exact (hroot.within_part_start hblock hr _).to_end
  case h_2 =>
    split
    case h_1 s hs =>
      exact hafter (List.mem_filter.mp (List.mem_of_getLast? hs)).1 _
    case h_2 => exact hroot.within_brace hblock his _

theorem hookEdit_within (hblock : block ∈ t.rootD.walk) (his : block.is .statementBlock = true)
    (statement : String) (r : Nat) (indent : String) :
    (hookEdit t block (blockStatements block) statement r indent).Within t.chars block.start
      (byteSize t.chars) := by
  have hpart {s : Node × Nat} (hs : s ∈ rankedHooks t (blockStatements block)) :=
    mem_walk_of_mem_blockStatements (mem_of_mem_rankedHooks hs)
  unfold hookEdit
  dsimp only
  split
  case h_1 last r hlast =>
    have hlast := hpart (List.mem_filter.mp (List.mem_of_getLast? hlast)).1
    exact (hroot.within_part_stop hblock hlast _).to_end
  case h_2 =>
    split
    case h_1 next r hnext =>
      have hnext := hpart (List.mem_of_find?_eq_some hnext)
      exact (hroot.within_part_start hblock hnext _).to_end
    case h_2 => exact hroot.within_brace hblock his _

/-- A statement is put somewhere in the body of its function. -/
theorem statementEdit_within {statement : String} {r : Nat} {indent : String} {e : Edit}
    (he : statementEdit t f statement r indent = .ok e) :
    e.Within t.chars f.body.span.start (byteSize t.chars) := by
  obtain ⟨body, hbody, he⟩ := bind_eq_ok_iff.mp he
  obtain ⟨hmem, hspan, -⟩ := Tree.resolve_eq_ok hbody
  have hstart : body.start = f.body.span.start := congrArg Span.start hspan
  rw [← hstart]
  dsimp only at he
  split at he
  case isTrue hblock =>
    split at he
    case isTrue =>
      cases he
      exact plainEdit_within hroot hmem hblock statement indent
    case isFalse =>
      cases he
      exact hookEdit_within hroot hmem hblock statement r indent
  case isFalse =>
    obtain ⟨outer, -, he⟩ := bind_eq_ok_iff.mp he
    cases he
    exact (hroot.within_replace hmem _).to_end

/-- The function of a reducer goes just before the statement of the component. -/
theorem reducerEdit_within {name : String} {actions : List ReducerAction} {unit : String} {e : Edit}
    (he : reducerEdit t f name actions unit = .ok e) :
    e.Within t.chars f.statement.span.start f.statement.span.start := by
  obtain ⟨v, hv, he⟩ := bind_eq_ok_iff.mp he
  obtain ⟨hmem, hspan, -⟩ := Tree.resolveVisit_eq_ok hv
  have hstart : v.node.start = f.statement.span.start := congrArg Span.start hspan
  rw [← hstart]
  split at he
  all_goals
    dsimp only at he
    split at he
    · cases he
    · cases he
      exact hroot.within_insert_start hmem _

/-- The edits of a hook: a statement in the body and, for a reducer, a function before the component. -/
theorem edits_applicable {component : Option String} {hook : Hook} {es : List Edit}
    (hf : t.component component = .ok f) (hes : edits t f hook = .ok es) :
    Edit.Applicable t.chars es := by
  obtain ⟨layout, -, hes⟩ := bind_eq_ok_iff.mp hes
  obtain ⟨-, -, hes⟩ := bind_eq_ok_iff.mp hes
  obtain ⟨e, he, hes⟩ := bind_eq_ok_iff.mp hes
  have hwithin := statementEdit_within hroot he
  split at hes
  case h_1 =>
    obtain ⟨reducer, hreducer, hes⟩ := bind_eq_ok_iff.mp hes
    cases hes
    have hfront := reducerEdit_within hroot hreducer
    obtain ⟨statement, body, hdescribes⟩ := Tree.exists_describes hf
    have hle : f.statement.span.start ≤ f.body.span.start := by
      rw [hdescribes.statement_eq, hdescribes.body_eq]
      exact (hroot.inside hdescribes.statement_mem hdescribes.body_mem).1
    exact Edit.applicable_pair_swap (hwithin.mono hle (Nat.le_refl _)) hfront
  case h_2 =>
    cases hes
    exact hwithin.applicable

end Hook

namespace Source

theorem isPrefix_takeBytes (n : Nat) (cs : List Char) : takeBytes n cs <+: cs := by
  induction cs generalizing n with
  | nil => exact List.nil_prefix
  | cons c cs ih =>
    rw [takeBytes]
    split
    · exact List.cons_prefix_cons.mpr ⟨rfl, ih _⟩
    · exact List.nil_prefix

theorem byteSize_takeBytes_le (n : Nat) (cs : List Char) : byteSize (takeBytes n cs) ≤ n := by
  induction cs generalizing n with
  | nil => exact Nat.zero_le _
  | cons c cs ih =>
    rw [takeBytes]
    split
    · have := ih (n - c.utf8Size)
      rw [byteSize]
      omega
    · exact Nat.zero_le _

theorem dropBytes_append (front rest : List Char) : dropBytes (byteSize front) (front ++ rest) = rest := by
  induction front with
  | nil =>
    cases rest with
    | nil => rfl
    | cons c cs => rw [List.nil_append, byteSize, dropBytes, if_pos rfl]
  | cons c front ih =>
    have hpos := c.utf8Size_pos
    rw [List.cons_append, byteSize, dropBytes, if_neg (by omega), Nat.add_sub_cancel_left, ih]

/-- The end of the text of a node, less some of its last characters. -/
theorem boundary_of_prefix_slice {text cs : List Char} {start stop : Nat} (hstart : Boundary text start)
    (hcs : cs <+: sliceBytes start stop text) :
    Boundary text (start + byteSize cs) ∧ byteSize cs ≤ stop - start := by
  obtain ⟨front, ⟨rest, rfl⟩, rfl⟩ := hstart
  rw [sliceBytes, dropBytes_append] at hcs
  obtain ⟨more, hmore⟩ := hcs
  have hprefix : cs <+: rest := List.IsPrefix.trans ⟨more, hmore⟩ (isPrefix_takeBytes _ rest)
  constructor
  · refine ⟨front ++ cs, ?_, byteSize_append front cs⟩
    exact (List.prefix_append_right_inj front).mpr hprefix
  · have hle := byteSize_takeBytes_le (stop - byteSize front) rest
    rw [← hmore, byteSize_append] at hle
    omega

end Source

namespace Element

variable {t : Tree} {n opening : Node} {e : Edit}

theorem findAttribute?_mem_walk {name : String} {a : Node}
    (ha : findAttribute? t opening name = some a) : a ∈ opening.walk :=
  mem_walk_of_mem_named (List.mem_of_find?_eq_some ha)

/-- Attributes end where some part of the opening tag does. -/
theorem attributesEnd_eq_ok {offset : Nat} (h : attributesEnd opening = .ok offset) :
    ∃ m ∈ opening.walk, offset = m.stop := by
  unfold attributesEnd at h
  dsimp only at h
  split at h
  case h_2 => cases h
  case h_1 m hm =>
    cases h
    refine ⟨m, ?_, rfl⟩
    rw [Option.orElse_eq_orElse, Option.orElse_eq_or] at hm
    obtain hm | ⟨-, hm⟩ := Option.or_eq_some_iff.mp hm
    · exact mem_walk_of_mem_named (List.mem_filter.mp (List.mem_of_getLast? hm)).1
    · exact mem_walk_of_child? hm

/-- The sibling before a member of a row ends before the member starts. -/
theorem previousSibling?_stop_le {lo hi : Nat} {ns : List Node} (hrow : Row lo hi ns) {a p : Node}
    (hp : previousSibling? a ns = some p) : p ∈ ns ∧ p.stop ≤ a.start := by
  induction ns generalizing lo with
  | nil => cases hp
  | cons n ns ih =>
    cases ns with
    | nil => cases hp
    | cons m ns =>
      rw [previousSibling?] at hp
      obtain ⟨-, -, -, hrest⟩ := hrow
      split at hp
      case isTrue hsame =>
        cases hp
        have hspan : m.span = a.span := by simpa using (Bool.and_eq_true_iff.mp hsame).1
        have hstart : m.start = a.start := congrArg Span.start hspan
        exact ⟨List.mem_cons_self, hstart ▸ hrest.1⟩
      case isFalse =>
        obtain ⟨hmem, hle⟩ := ih hrest hp
        exact ⟨List.mem_cons_of_mem n hmem, hle⟩

variable (hroot : t.rootD.Regular t.chars)
include hroot

theorem within_attribute {name : String} {a : Node} (hopening : opening ∈ t.rootD.walk)
    (ha : findAttribute? t opening name = some a) (s : String) :
    (⟨a.start, a.stop, s⟩ : Edit).Within t.chars opening.start opening.stop :=
  have hmem := findAttribute?_mem_walk ha
  hroot.within_part hopening hmem (hroot.within_replace (mem_walk_trans hopening hmem) s)
    (Nat.le_refl _) (Nat.le_refl _)

theorem within_attributesEnd {offset : Nat} (hopening : opening ∈ t.rootD.walk)
    (h : attributesEnd opening = .ok offset) (s : String) :
    (Edit.insert offset s).Within t.chars opening.start opening.stop := by
  obtain ⟨m, hm, rfl⟩ := attributesEnd_eq_ok h
  exact hroot.within_part_stop hopening hm s

theorem classEdit_within (hopening : opening ∈ t.rootD.walk) {rendered : String}
    (he : classEdit t opening rendered = .ok e) : e.Within t.chars opening.start opening.stop := by
  unfold classEdit at he
  split at he
  case h_1 a ha =>
    cases he
    exact within_attribute hroot hopening ha _
  case h_2 =>
    obtain ⟨offset, hoffset, he⟩ := bind_eq_ok_iff.mp he
    cases he
    exact within_attributesEnd hroot hopening hoffset _

theorem propEdit_within (hopening : opening ∈ t.rootD.walk) {target name : String}
    {value : Option String} {action : PropAction}
    (he : propEdit t opening target name value action = .ok e) :
    e.Within t.chars opening.start opening.stop := by
  cases action with
  | add =>
    rw [propEdit] at he
    split at he
    case h_1 => cases he
    case h_2 =>
      obtain ⟨offset, hoffset, he⟩ := bind_eq_ok_iff.mp he
      cases he
      exact within_attributesEnd hroot hopening hoffset _
  | update =>
    rw [propEdit] at he
    split at he
    case h_2 => cases he
    case h_1 a ha =>
      cases he
      exact within_attribute hroot hopening ha _
  | remove =>
    rw [propEdit] at he
    split at he
    case h_2 => cases he
    case h_1 a ha =>
      cases he
      have hwithin := within_attribute hroot hopening ha ""
      cases hp : previousSibling? a opening.children with
      | none => exact hwithin
      | some p =>
        have hrow := (hroot.nested.of_mem_walk hopening).2.2.row
        obtain ⟨hmem, hle⟩ := previousSibling?_stop_le hrow hp
        have hmem := child_mem_walk hmem
        have hbefore := hroot.within_part_stop hopening hmem ""
        have hboundary := hroot.stop p (mem_walk_trans hopening hmem)
        exact ⟨hbefore.lo_le, Nat.le_trans hle hwithin.start_le_stop, hwithin.le_hi, hboundary,
          hwithin.stop⟩

theorem siblingEdit_within {v : Visit} {target jsx : String} {position : Position}
    (hv : v.node ∈ t.rootD.walk) (he : siblingEdit t v target jsx position = .ok e) :
    e.Within t.chars v.node.start v.node.stop := by
  have hbefore (s : String) := hroot.within_part_start hv v.node.self_mem_walk s
  have hafter (s : String) := hroot.within_part_stop hv v.node.self_mem_walk s
  unfold siblingEdit at he
  dsimp only at he
  split at he
  case isFalse => cases he
  case isTrue =>
    split at he
    · cases he
      split
      · exact hbefore _
      · exact hafter _
    · cases he
      split
      · exact hbefore _
      · exact hafter _

/-- The last child between two tags ends within the element. -/
theorem lastChildEnd_within {closing : Node} (hn : n ∈ t.rootD.walk) (hopening : opening ∈ n.walk)
    (s : String) :
    (Edit.insert (lastChildEnd t opening (innerChildren t n opening closing)) s).Within t.chars
      n.start n.stop := by
  unfold lastChildEnd
  split
  case h_1 => exact hroot.within_part_stop hn hopening s
  case h_2 c hc =>
    have hmem := mem_walk_of_mem_named (List.mem_filter.mp (List.mem_of_getLast? hc)).1
    have hc := mem_walk_trans hn hmem
    split
    case isFalse => exact hroot.within_part_stop hn hmem s
    case isTrue =>
      have hprefix : Text.stripEnd (t.nodeText c).toList <+: sliceBytes c.start c.stop t.chars := by
        rw [Tree.nodeText, Tree.slice, String.toList_ofList]
        exact Text.isPrefix_dropEndWhile _ _
      obtain ⟨hboundary, hle⟩ := boundary_of_prefix_slice (hroot.start c hc) hprefix
      have := hroot.start_le_stop hc
      exact hroot.within_part hn hmem (Edit.within_insert hboundary s) (by omega) (by omega)

theorem childEdit_within {jsx unit : String} {atStart : Bool} (hn : n ∈ t.rootD.walk)
    (he : childEdit t n jsx atStart unit = .ok e) : e.Within t.chars n.start n.stop := by
  unfold childEdit at he
  split at he
  case h_2 => cases he
  case h_1 opening closing hopening hclosing =>
    have hopening := Tree.openingTag?_mem_walk hopening
    have hclosing := Tree.closingTag?_mem_walk hclosing
    dsimp only at he
    split at he
    · cases he
      split
      · exact hroot.within_part_stop hn hopening _
      · exact lastChildEnd_within hroot hn hopening _
    · cases he
      split
      · exact hroot.within_part_stop hn hopening _
      · exact hroot.within_part_start hn hclosing _

/-- Markup is inserted within the element that it is inserted next to, or at one of its ends. -/
theorem insertionEdit_within {v : Visit} {tag target jsx : String} {position : Position}
    (hv : v.node ∈ t.rootD.walk) (he : insertionEdit t v tag target jsx position = .ok e) :
    e.Within t.chars v.node.start v.node.stop := by
  unfold insertionEdit at he
  dsimp only at he
  split at he
  · exact siblingEdit_within hroot hv he
  · split at he
    · cases he
      exact hroot.within_replace hv _
    · exact childEdit_within hroot hv he

end Element

namespace Authentication

variable {t : Tree} {first root : Node}

theorem withoutParens_mem_walk {n : Node} (fuel : Nat) {e : Option Node} (he : ∀ x ∈ e, x ∈ n.walk) :
    ∀ x ∈ withoutParens fuel e, x ∈ n.walk := by
  induction fuel generalizing e with
  | zero => exact he
  | succ fuel ih =>
    cases e with
    | none => exact he
    | some x =>
      have hx := he x rfl
      rw [withoutParens]
      split
      · refine ih fun y hy => ?_
        exact mem_walk_trans hx (mem_walk_of_mem_named (List.mem_of_head? hy))
      · exact fun y hy => Option.mem_some_iff.mp hy ▸ hx

/-- The element that is returned is a part of the return statement. -/
theorem returnedElement?_mem_walk (h : returnedElement? first = some root) : root ∈ first.walk := by
  refine withoutParens_mem_walk first.depth (fun x hx => ?_) root (Option.filter_eq_some_iff.mp h).1
  exact mem_walk_of_mem_named (List.mem_of_head? hx)

variable (hroot : t.rootD.Regular t.chars)
include hroot

/-- The login form goes before the return statement and the logout button inside what it returns. -/
theorem form_applicable {style : FormStyle} {email : Bool} {unit : String} {button : Edit}
    (hfirst : first ∈ t.rootD.walk) (hreturned : returnedElement? first = some root)
    (hbutton : buttonEdit t root style unit = .ok button) :
    Edit.Applicable t.chars [guardEdit t first style email unit, button] := by
  have hpart := returnedElement?_mem_walk hreturned
  have hmem := mem_walk_trans hfirst hpart
  have hwithin : button.Within t.chars root.start root.stop := by
    unfold buttonEdit at hbutton
    dsimp only at hbutton
    split at hbutton
    · cases hbutton
      exact hroot.within_replace hmem _
    · exact Element.childEdit_within hroot hmem hbutton
  have hafter := hroot.within_part hfirst hpart hwithin (Nat.le_refl _) (Nat.le_refl _)
  exact Edit.applicable_pair (hroot.within_insert_start hfirst _) hafter

end Authentication

end SourceChange
