import Mathlib.Data.List.Chain
import SourceChange.Proofs.Element.Target
import SourceChange.Proofs.NodeText
import SourceChange.Proofs.Text.Lines

/-!
Inserting markup.

Markup that goes next to an element, or between the tags of one, is inserted at one offset, where it is
in the middle of no other child; its words are those that were given. An element that closes itself is
the only one that is written anew. So markup that is inserted several times is there as often, and all
that was there before still is.
-/

namespace SourceChange

open Source Syntax Syntax.Node

namespace Syntax.Node

/-- On the way down to a range each node is a child of the one before it. -/
theorem isChain_cover (root : Node) (s : Span) : (root.cover s).IsChain fun c p => c ∈ p.children := by
  have hfrom (depth : Nat) : ∀ (m : Node) (above : List Node), (m :: above).IsChain (fun c p => c ∈ p.children) →
      (coverFrom s above depth m).IsChain fun c p => c ∈ p.children := by
    induction depth with
    | zero => exact fun m above h => h
    | succ depth ih =>
      intro m above h
      rw [coverFrom]
      split
      case h_1 c hfind =>
        split
        · exact ih c (m :: above) (.cons_cons (List.mem_of_find?_eq_some hfind) h)
        · exact h
      case h_2 => exact h
  exact hfrom root.depth root [] (.singleton root)

end Syntax.Node

namespace Element

/-- The children of an element between its tags. -/
def content (n : Node) : List Node :=
  n.named.filter fun c => c.role != some .openTag && c.role != some .closeTag

/-- Whether a child is more than layout, as a text of blanks is. -/
def isShown (t : Tree) (c : Node) : Bool := !(c.is .jsxText && Text.isBlankText (t.nodeText c))

/-- Where a child ends; blanks at the end of a text do not count. -/
def shownEnd (t : Tree) (c : Node) : Nat :=
  if c.is .jsxText then c.start + byteSize (Text.stripEnd (t.nodeText c).toList) else c.stop

/-- An offset between the tags of an element that lies in no child, unless in the blanks at the end of a
text. -/
structure Between (t : Tree) (n : Node) (offset : Nat) : Prop where
  tags : ∃ opening closing, n.child? .openTag = some opening ∧ n.child? .closeTag = some closing ∧
    opening.stop ≤ offset ∧ offset ≤ closing.start
  apart : ∀ c ∈ n.children, c.start < offset → offset < c.stop → c.is .jsxText = true ∧ shownEnd t c ≤ offset

/-- An offset where markup may be inserted relative to an element. -/
inductive Place (t : Tree) (v : Visit) : Position → Nat → Prop where
  | before {p : Node} (hparent : v.parent? = some p) (hchild : v.node ∈ p.children)
    (helement : p.is .jsxElement = true) : Place t v .before v.node.start
  | after {p : Node} (hparent : v.parent? = some p) (hchild : v.node ∈ p.children)
    (helement : p.is .jsxElement = true) : Place t v .after v.node.stop
  | insideStart {offset : Nat} (hbetween : Between t v.node offset)
    (hbefore : ∀ c ∈ content v.node, isShown t c = true → offset ≤ c.start) : Place t v .insideStart offset
  | insideEnd {offset : Nat} (hbetween : Between t v.node offset)
    (hafter : ∀ c ∈ content v.node, isShown t c = true → shownEnd t c ≤ offset) : Place t v .insideEnd offset

variable {t : Tree} {n m c opening closing : Node} {v : Visit} {e : Edit} {offset : Nat}

/-- The children of an element come one after the other, its tags at the ends. -/
structure Rows (t : Tree) (n opening closing : Node) : Prop where
  mem : n ∈ t.rootD.walk
  openTag : n.child? .openTag = some opening
  closeTag : n.child? .closeTag = some closing
  row : Row n.start n.stop n.children
  behind : ∀ c ∈ n.children, c = opening ∨ opening.stop ≤ c.start
  before : ∀ c ∈ n.children, c = closing ∨ c.stop ≤ closing.start
  shown : ∀ c ∈ n.children, c.start ≤ shownEnd t c ∧ shownEnd t c ≤ c.stop

theorem shownEnd_within (ht : t.Built) (hc : c ∈ t.rootD.walk) :
    c.start ≤ shownEnd t c ∧ shownEnd t c ≤ c.stop := by
  have hle := ht.regular.start_le_stop hc
  unfold shownEnd
  split
  · have hprefix : Text.stripEnd (t.nodeText c).toList <+: sliceBytes c.start c.stop t.chars := by
      rw [Tree.nodeText, Tree.slice, String.toList_ofList]
      exact Text.isPrefix_dropEndWhile _ _
    obtain ⟨-, hsize⟩ := boundary_of_prefix_slice (ht.regular.start c hc) hprefix
    omega
  · exact ⟨hle, Nat.le_refl _⟩

theorem exists_rows (ht : t.Built) (hn : n ∈ t.rootD.walk) (hopening : openingTag? n = some opening)
    (hclosing : closingTag? n = some closing) : Rows t n opening closing := by
  have helement : n.is .jsxElement = true := by
    unfold closingTag? at hclosing
    split at hclosing
    · assumption
    · cases hclosing
  obtain ⟨hstart, hstop⟩ := (ht.enclosed hn).tagged helement
  obtain ⟨first, hfirst, hstart⟩ := Option.map_eq_some_iff.mp hstart
  obtain ⟨last, hlast, hstop⟩ := Option.map_eq_some_iff.mp hstop
  obtain rfl : first = opening := by
    have hother : ¬ n.is .jsxSelfClosingElement = true := by
      rw [is, beq_iff_eq] at helement ⊢
      simp [helement]
    simpa [openingTag?, hother, hfirst] using hopening
  obtain rfl : last = closing := by simpa [closingTag?, helement, hlast] using hclosing
  have hrow := (ht.regular.nested.of_mem_walk hn).2.2.row
  have hfirstMem : first ∈ n.children := List.mem_of_find?_eq_some hfirst
  have hlastMem : last ∈ n.children := List.mem_of_find?_eq_some hlast
  have hsolid (c : Node) (hc : c ∈ n.children) : c.start < c.stop :=
    (ht.of_child hn hc).2 c (mem_walk_trans hn (child_mem_walk hc))
  refine ⟨hn, hfirst, hlast, hrow, fun c hc => ?_, fun c hc => ?_, fun c hc => ?_⟩
  · have hlo := (hrow.of_mem hc).1
    have := hsolid c hc
    obtain heq | hbefore | hbehind := hrow.apart hc hfirstMem
    · exact .inl heq
    · omega
    · exact .inr hbehind
  · have hhi := (hrow.of_mem hc).2.1
    have := hsolid c hc
    obtain heq | hbefore | hbehind := hrow.apart hc hlastMem
    · exact .inl heq
    · exact .inr hbefore
    · omega
  · exact shownEnd_within ht (mem_walk_trans hn (child_mem_walk hc))

namespace Rows

theorem opening_mem (h : Rows t n opening closing) : opening ∈ n.children := List.mem_of_find?_eq_some h.openTag

theorem closing_mem (h : Rows t n opening closing) : closing ∈ n.children := List.mem_of_find?_eq_some h.closeTag

theorem opening_stop_le (h : Rows t n opening closing) : opening.stop ≤ closing.start := by
  obtain heq | hbefore := h.before opening h.opening_mem
  · have hopen := List.find?_some h.openTag
    have hclose := List.find?_some h.closeTag
    rw [heq] at hopen
    rw [beq_iff_eq] at hopen hclose
    cases hopen.symm.trans hclose
  · exact hbefore

theorem mem_content (h : Rows t n opening closing) (hc : c ∈ content n) :
    c ∈ n.named ∧ opening.stop ≤ c.start ∧ c.stop ≤ closing.start := by
  obtain ⟨hnamed, hroles⟩ := List.mem_filter.mp hc
  simp only [Bool.and_eq_true, bne_iff_ne, ne_eq] at hroles
  have hmem : c ∈ n.children := (List.mem_filter.mp hnamed).1
  have hrole {tag : Node} {r : Role} (htag : n.child? r = some tag) (hne : ¬ c.role = some r) : c ≠ tag := by
    rintro rfl
    exact hne (by simpa using List.find?_some htag)
  exact ⟨hnamed, (h.behind c hmem).resolve_left (hrole h.openTag hroles.1),
    (h.before c hmem).resolve_left (hrole h.closeTag hroles.2)⟩

/-- An offset at an end of a child, or at the end of what is shown of a text. -/
theorem between (h : Rows t n opening closing) (hm : m ∈ n.children)
    (hend : offset = m.start ∨ offset = m.stop ∨ m.is .jsxText = true ∧ offset = shownEnd t m)
    (hlo : opening.stop ≤ offset) (hhi : offset ≤ closing.start) : Between t n offset := by
  refine ⟨⟨opening, closing, h.openTag, h.closeTag, hlo, hhi⟩, fun c hc hstart hstop => ?_⟩
  have := h.shown m hm
  obtain rfl | hbefore | hbehind := h.row.apart hc hm
  · obtain heq | heq | ⟨htext, heq⟩ := hend
    · omega
    · omega
    · exact ⟨htext, Nat.le_of_eq heq.symm⟩
  · omega
  · omega

end Rows

theorem findOn_suffix {h : Handle} {path : List Node} (hfind : Tree.findOn h path = some v) :
    v.node :: v.ancestors <:+ path := by
  induction path with
  | nil => cases hfind
  | cons n above ih =>
    rw [Tree.findOn] at hfind
    split at hfind
    case isFalse => cases hfind
    case isTrue =>
      split at hfind
      case isTrue =>
        cases hfind
        exact List.suffix_refl _
      case isFalse => exact (ih hfind).trans (List.suffix_cons n above)

/-- The node that a handle names is a child of the node above it. -/
theorem mem_children_of_resolveVisit {h : Handle} {p : Node} (hv : t.resolveVisit h = .ok v)
    (hparent : v.parent? = some p) : v.node ∈ p.children := by
  unfold Tree.resolveVisit at hv
  split at hv
  case isTrue => cases hv
  case isFalse =>
    obtain ⟨root, -, hv⟩ := bind_eq_ok_iff.mp hv
    dsimp only at hv
    split at hv
    case h_2 => cases hv
    case h_1 found hfind =>
      cases hv
      have hchain := (isChain_cover root h.span).suffix (findOn_suffix hfind)
      obtain ⟨n, above⟩ := v
      obtain ⟨rest, rfl⟩ := List.head?_eq_some_iff.mp hparent
      exact (List.isChain_cons_cons.mp hchain).1

theorem blank_indentAt (offset : Nat) : Text.Blank (t.indentAt offset).toList :=
  fun _ hc => Text.isBlank_of_isIndent (Tree.isIndent_of_mem_indentAt hc)

theorem blank_indentUnit (s : String) : Text.Blank (Text.indentUnit s).toList :=
  fun _ hc => Text.isBlank_of_isIndent (Text.isIndent_of_mem_indentUnit hc)

theorem blank_childIndentOf (children : List Node) (s : String) :
    Text.Blank (childIndentOf t n children (Text.indentUnit s)).toList := by
  unfold childIndentOf
  split
  · exact blank_indentAt _
  · rw [String.toList_append]
    exact List.forall_mem_append.mpr ⟨blank_indentAt _, blank_indentUnit s⟩

theorem words_before_break {indent : String} (hindent : Text.Blank indent.toList) (s : String) :
    Text.words (s ++ "\n" ++ indent).toList = Text.words s.toList := by
  have hfeed : Text.Blank "\n".toList := List.forall_mem_singleton.mpr rfl
  rw [String.toList_append, String.toList_append, Text.words_append_blank hindent, Text.words_append_blank hfeed]

theorem words_behind_break {indent : String} (hindent : Text.Blank indent.toList) (s : String) :
    Text.words ("\n" ++ indent ++ s).toList = Text.words s.toList := by
  have hfeed : Text.Blank "\n".toList := List.forall_mem_singleton.mpr rfl
  rw [String.toList_append, String.toList_append, List.append_assoc, Text.words_append_of_blank hfeed,
    Text.words_append_of_blank hindent]

/-- Markup that goes next to an element. -/
theorem siblingEdit_eq_ok {h : Handle} {target jsx : String} {position : Position}
    (hv : t.resolveVisit h = .ok v) (hposition : position = .before ∨ position = .after)
    (he : siblingEdit t v target jsx position = .ok e) :
    ∃ offset s, e = .insert offset s ∧ Text.words s.toList = Text.words jsx.toList ∧
      Place t v position offset := by
  unfold siblingEdit at he
  dsimp only at he
  split at he
  case isFalse => cases he
  case isTrue hchild =>
    obtain ⟨p, hparent, helement⟩ : ∃ p, v.parent? = some p ∧ p.is .jsxElement = true := by
      cases hp : v.parent? with
      | none => simp [hp] at hchild
      | some p => exact ⟨p, rfl, by simpa [hp] using hchild⟩
    have hmem := mem_children_of_resolveVisit hv hparent
    have hindent := blank_indentAt (t := t) v.node.start
    have hfragment := Text.words_reindent jsx hindent
    have hfront := words_behind_break hindent (Text.reindent jsx (t.indentAt v.node.start))
    have hback := words_before_break hindent (Text.reindent jsx (t.indentAt v.node.start))
    obtain rfl | rfl := hposition
    · split at he
      · cases he
        exact ⟨_, _, rfl, hback.trans hfragment, .before hparent hmem helement⟩
      · cases he
        exact ⟨_, _, rfl, Text.words_flattened jsx, .before hparent hmem helement⟩
    · split at he
      · cases he
        exact ⟨_, _, rfl, hfront.trans hfragment, .after hparent hmem helement⟩
      · cases he
        exact ⟨_, _, rfl, Text.words_flattened jsx, .after hparent hmem helement⟩

theorem mem_innerChildren_iff :
    c ∈ innerChildren t n opening closing ↔
      c ∈ n.named ∧ opening.stop ≤ c.start ∧ c.stop ≤ closing.start ∧ isShown t c = true := by
  simp [innerChildren, isShown, List.mem_filter, and_assoc]

/-- Where markup goes at the end of an element with its closing tag on a line of its own. -/
theorem Rows.place_lastChildEnd (h : Rows t n opening closing) :
    Between t n (lastChildEnd t opening (innerChildren t n opening closing)) ∧
      ∀ c ∈ content n, isShown t c = true →
        shownEnd t c ≤ lastChildEnd t opening (innerChildren t n opening closing) := by
  have hinner (c : Node) (hc : c ∈ content n) (hshown : isShown t c = true) :
      c ∈ innerChildren t n opening closing := by
    obtain ⟨hnamed, hlo, hhi⟩ := h.mem_content hc
    exact mem_innerChildren_iff.mpr ⟨hnamed, hlo, hhi, hshown⟩
  cases hlast : (innerChildren t n opening closing).getLast? with
  | none =>
    have hnone := List.getLast?_eq_none_iff.mp hlast
    have heq : lastChildEnd t opening (innerChildren t n opening closing) = opening.stop := by
      rw [lastChildEnd, hlast]
    rw [heq]
    refine ⟨h.between h.opening_mem (.inr (.inl rfl)) (Nat.le_refl _) h.opening_stop_le, fun c hc hshown => ?_⟩
    have hmem := hinner c hc hshown
    rw [hnone] at hmem
    cases hmem
  | some last =>
    have heq : lastChildEnd t opening (innerChildren t n opening closing) = shownEnd t last := by
      rw [lastChildEnd, hlast, shownEnd]
    have hmem := List.mem_of_getLast? hlast
    obtain ⟨hnamed, hlo, hhi, -⟩ := mem_innerChildren_iff.mp hmem
    have hchild : last ∈ n.children := (List.mem_filter.mp hnamed).1
    have hwithin := h.shown last hchild
    rw [heq]
    refine ⟨h.between hchild ?_ (by omega) (by omega), fun c hc hshown => ?_⟩
    · by_cases htext : last.is .jsxText = true
      · exact .inr (.inr ⟨htext, rfl⟩)
      · exact .inr (.inl (if_neg htext))
    · have hsorted : (innerChildren t n opening closing).Pairwise fun a b => a.stop ≤ b.start :=
        (h.row.pairwise.filter _).filter _
      obtain ⟨front, hfront⟩ := List.getLast?_eq_some_iff.mp hlast
      have hc := hinner c hc hshown
      have hend := (h.shown c (List.mem_filter.mp (mem_innerChildren_iff.mp hc).1).1).2
      rw [hfront] at hc hsorted
      obtain hc | hc := List.mem_append.mp hc
      · have hbefore := (List.pairwise_append.mp hsorted).2.2 c hc last List.mem_cons_self
        omega
      · obtain rfl := List.mem_singleton.mp hc
        exact Nat.le_refl _

/-- Markup that goes between the tags of an element. -/
theorem childEdit_eq_ok (ht : t.Built) (hv : v.node ∈ t.rootD.walk) {jsx s : String} (atStart : Bool)
    (he : childEdit t v.node jsx atStart (Text.indentUnit s) = .ok e) :
    ∃ offset s, e = .insert offset s ∧ Text.words s.toList = Text.words jsx.toList ∧
      Place t v (if atStart then .insideStart else .insideEnd) offset := by
  unfold childEdit at he
  split at he
  case h_2 => cases he
  case h_1 opening closing hopening hclosing =>
    have hrows := exists_rows ht hv hopening hclosing
    have hstart : Place t v .insideStart opening.stop :=
      .insideStart (hrows.between hrows.opening_mem (.inr (.inl rfl)) (Nat.le_refl _) hrows.opening_stop_le)
        fun c hc _ => (hrows.mem_content hc).2.1
    have hend : Place t v .insideEnd closing.start := by
      refine .insideEnd (hrows.between hrows.closing_mem (.inl rfl) hrows.opening_stop_le (Nat.le_refl _))
        fun c hc _ => ?_
      obtain ⟨hnamed, -, hhi⟩ := hrows.mem_content hc
      exact Nat.le_trans (hrows.shown c (List.mem_filter.mp hnamed).1).2 hhi
    dsimp only at he
    split at he
    · have hlast := hrows.place_lastChildEnd
      have hindent := blank_childIndentOf (t := t) (n := v.node) (innerChildren t v.node opening closing) s
      cases he
      refine ⟨_, _, rfl, (words_behind_break hindent _).trans (Text.words_reindent jsx hindent), ?_⟩
      cases atStart with
      | true => exact hstart
      | false => exact .insideEnd hlast.1 hlast.2
    · cases he
      refine ⟨_, _, rfl, Text.words_flattened jsx, ?_⟩
      cases atStart with
      | true => exact hstart
      | false => exact hend

/-- Markup is inserted at one offset, unless it has to go inside an element that closes itself. -/
theorem insertionEdit_eq_ok (ht : t.Built) {h : Handle} (hv : t.resolveVisit h = .ok v) {tag target jsx : String}
    {position : Position}
    (hopen : position = .before ∨ position = .after ∨ v.node.is .jsxSelfClosingElement = false)
    (he : insertionEdit t v tag target jsx position = .ok e) :
    ∃ offset s, e = .insert offset s ∧ Text.words s.toList = Text.words jsx.toList ∧
      Place t v position offset := by
  have hmem := (Tree.resolveVisit_eq_ok hv).1
  unfold insertionEdit at he
  cases position with
  | before => exact siblingEdit_eq_ok hv (.inl rfl) he
  | after => exact siblingEdit_eq_ok hv (.inr rfl) he
  | insideStart =>
    have hopen : v.node.is .jsxSelfClosingElement = false := by simpa using hopen
    rw [hopen] at he
    exact childEdit_eq_ok ht hmem true he
  | insideEnd =>
    have hopen : v.node.is .jsxSelfClosingElement = false := by simpa using hopen
    rw [hopen] at he
    exact childEdit_eq_ok ht hmem false he

/-- The operation that inserts markup. -/
def insertion (target jsx : String) (position : Position) : Operation := .element target (.insert jsx position)

/-- The target of a change, in a tree of the draft that is changed. -/
structure Target (d : Draft) (target : String) (t : Tree) (v : Visit) : Prop where
  reads : d.Reads t
  found : ∃ element, t.element target = .ok element ∧ t.resolveVisit element.handle = .ok v

/-- Whether markup goes next to an element or between its tags. -/
def HasRoom (v : Visit) (position : Position) : Prop :=
  position = .before ∨ position = .after ∨ v.node.is .jsxSelfClosingElement = false

/-- A text with another one inserted somewhere, with the given words. -/
inductive Inserts (ws : List (List Char)) : Nat → List Char → List Char → Prop where
  | refl (cs : List Char) : Inserts ws 0 cs cs
  | step {k : Nat} {cs front rest s : List Char} (h : Inserts ws k cs (front ++ rest)) (hs : Text.words s = ws) :
    Inserts ws (k + 1) cs (front ++ (s ++ rest))

/-- Markup is inserted some times, where there is room for it each time. -/
inductive Repeats (target jsx : String) (position : Position) (d : Draft) : Nat → Draft → Prop where
  | zero : Repeats target jsx position d 0 d
  | succ {k : Nat} {d' : Draft} {r : Reader} {o : Outcome} (hrun : Repeats target jsx position d k d')
    (hr : r.Exact) (hdiscerns : r.Discerns ((insertion target jsx position).apply d').run)
    (h : (((insertion target jsx position).apply d').on r).1 = .ok o)
    (hroom : ∀ t v, Target d' target t v → HasRoom v position) :
    Repeats target jsx position d (k + 1) (d'.advance o.text)

section Step

variable {target jsx : String} {position : Position} {d d' : Draft} {r : Reader} {o : Outcome} {k : Nat}
  {ws : List (List Char)} {cs cs' : List Char}

theorem checkFragment_cache (jsx : String) (r : Reader) : ((checkFragment jsx).on r).2.cache = r.cache := by
  rw [checkFragment, Reading.on_bind, Reading.on_lenient]
  dsimp only
  split <;> rfl

/-- All trees of a draft have the same target. -/
theorem Target.eq {t t' : Tree} {v v' : Visit} (h : Target d target t v) (h' : Target d target t' v') :
    v = v' := by
  obtain ⟨element, helement, hv⟩ := h.found
  obtain ⟨element', helement', hv'⟩ := h'.found
  have ht : t = t'.withVersion t.version :=
    h.reads.eq_build.trans (congrArg (·.withVersion t.version) h'.reads.eq_build).symm
  generalize t.version = w at ht
  subst ht
  obtain ⟨n, -, -, rfl⟩ := Tree.exists_of_element helement'
  rw [Tree.element_withVersion, helement'] at helement
  cases helement
  have hsame := Tree.resolveVisit_withVersion t' w t'.version (t'.elementOf n).handle
  exact Except.ok.inj (hv.symm.trans (hsame.trans hv'))

/-- The edit of an insertion. -/
theorem exists_edit_of_insert (hr : r.cache = none) (h : ((insert d target jsx position).on r).1 = .ok o) :
    ∃ t v tag e, Target d target t v ∧ insertionEdit t v tag target jsx position = .ok e ∧
      t.edited [e] = .ok o.text := by
  obtain ⟨_, -, h⟩ := Reading.exists_of_bind_on_eq_ok h
  obtain ⟨t, ht, h⟩ := Reading.exists_of_bind_on_eq_ok h
  obtain ⟨element, helement, h⟩ := Reading.exists_of_liftM_on_eq_ok h
  obtain ⟨v, hv, h⟩ := Reading.exists_of_liftM_on_eq_ok h
  obtain ⟨e, he, h⟩ := Reading.exists_of_liftM_on_eq_ok h
  obtain ⟨text, htext, h⟩ := Reading.exists_of_liftM_on_eq_ok h
  rw [Reading.on_pure] at h
  cases h
  have hreads := Draft.reads_of_uncached ((checkFragment_cache jsx r).trans hr) ht
  exact ⟨t, v, element.tag, e, ⟨hreads, element, helement, hv⟩, he, htext⟩

/-- Markup is inserted at one offset. -/
theorem exists_insertion (hr : r.Exact) (hdiscerns : r.Discerns ((insertion target jsx position).apply d).run)
    (h : (((insertion target jsx position).apply d).on r).1 = .ok o) :
    ∃ t v, Target d target t v ∧ (HasRoom v position → ∃ front s rest,
      d.text.toList = front ++ rest ∧ o.text.toList = front ++ (s ++ rest) ∧
      Text.words s = Text.words jsx.toList ∧ Place t v position (byteSize front)) := by
  obtain ⟨t, v, tag, e, htarget, he, htext⟩ := exists_edit_of_insert rfl (changeElement_of_apply hr hdiscerns h).2
  refine ⟨t, v, htarget, fun hroom => ?_⟩
  obtain ⟨element, -, hv⟩ := htarget.found
  have hwithin := insertionEdit_within htarget.reads.built.regular (Tree.resolveVisit_eq_ok hv).1 he
  obtain ⟨offset, s, rfl, hs, hplace⟩ := insertionEdit_eq_ok htarget.reads.built hv hroom he
  obtain ⟨front, ⟨rest, hchars⟩, rfl⟩ := hwithin.start
  rw [Tree.edited, Tree.text, ← hchars, Edit.applyAll_insert] at htext
  refine ⟨front, s.toList, rest, ?_, ?_, hs, hplace⟩
  · rw [← htarget.reads.text_eq, Tree.text, String.toList_ofList, hchars]
  · rw [← Except.ok.inj htext, String.toList_ofList, List.append_assoc]

theorem Inserts.sublist (h : Inserts ws k cs cs') : cs.Sublist cs' := by
  induction h with
  | refl cs => exact .refl cs
  | step h hs ih => exact ih.trans ((List.Sublist.refl _).append (List.sublist_append_right _ _))

/-- What was there and what was inserted, and nothing else. -/
theorem Inserts.perm (h : Inserts ws k cs cs') :
    (Text.solid cs').Perm (Text.solid cs ++ (List.replicate k ws.flatten).flatten) := by
  induction h with
  | refl cs => simp
  | @step k cs front rest s h hs ih =>
    have hsolid : Text.solid s = ws.flatten := by rw [← Text.flatten_words, hs]
    have hfront : (Text.solid (front ++ (s ++ rest))).Perm (ws.flatten ++ Text.solid (front ++ rest)) := by
      rw [Text.solid_append, Text.solid_append, hsolid, Text.solid_append]
      exact List.perm_append_comm_assoc ..
    rw [List.replicate_succ, List.flatten_cons]
    exact hfront.trans ((ih.append_left ws.flatten).trans (List.perm_append_comm_assoc ..))

theorem Repeats.inserts (h : Repeats target jsx position d k d') :
    Inserts (Text.words jsx.toList) k d.text.toList d'.text.toList := by
  induction h with
  | zero => exact .refl _
  | succ _ hr hdiscerns h hroom ih =>
    obtain ⟨t, v, htarget, hinserts⟩ := exists_insertion hr hdiscerns h
    obtain ⟨front, s, rest, htext, hresult, hs, -⟩ := hinserts (hroom t v htarget)
    rw [htext] at ih
    rw [Draft.advance, hresult]
    exact .step ih hs

/-- Markup is inserted between the children of elements. Unless it goes inside an element that closes
itself, an insertion that succeeds adds the words of the markup at one offset and keeps all the rest.
Next to its target, which is a child of an element, the offset is an end of it; inside, it lies between
the tags, in no child but for the blanks at the end of a text, and before or behind all that is shown.
So as many insertions add as many copies, and take nothing away. -/
theorem insertions_between_children (target jsx : String) (position : Position) (d : Draft) :
    (∀ r o, r.Exact → r.Discerns ((insertion target jsx position).apply d).run →
      (((insertion target jsx position).apply d).on r).1 = .ok o →
        ∃ t v, Target d target t v ∧ (HasRoom v position → ∃ front s rest,
          d.text.toList = front ++ rest ∧ o.text.toList = front ++ (s ++ rest) ∧
          Text.words s = Text.words jsx.toList ∧ Place t v position (byteSize front))) ∧
    ∀ k d', Repeats target jsx position d k d' →
      Inserts (Text.words jsx.toList) k d.text.toList d'.text.toList ∧ d.text.toList.Sublist d'.text.toList ∧
        (Text.solid d'.text.toList).Perm
          (Text.solid d.text.toList ++ (List.replicate k (Text.solid jsx.toList)).flatten) := by
  refine ⟨fun r o hr hdiscerns h => exists_insertion hr hdiscerns h, fun k d' hruns => ?_⟩
  have hinserts := hruns.inserts
  rw [← Text.flatten_words jsx.toList]
  exact ⟨hinserts, hinserts.sublist, hinserts.perm⟩

end Step

/-- The target of a change. -/
def findTarget? (d : Draft) (target : String) : Option Visit := do
  let t ← (d.tree.on .plain).1.toOption
  let element ← (t.element target).toOption
  (t.resolveVisit element.handle).toOption

theorem exists_target {d : Draft} {target : String} (h : findTarget? d target = some v) :
    ∃ t, Target d target t v := by
  obtain ⟨t, ht, h⟩ := Option.bind_eq_some_iff.mp h
  obtain ⟨element, helement, hv⟩ := Option.bind_eq_some_iff.mp h
  exact ⟨t, Draft.reads_of_uncached rfl (toOption_eq_some_iff.mp ht), element,
    toOption_eq_some_iff.mp helement, toOption_eq_some_iff.mp hv⟩

theorem hasRoom_of_findTarget? {d : Draft} {target : String} {position : Position}
    (h : (findTarget? d target).any (fun v => !v.node.is .jsxSelfClosingElement) = true) :
    ∀ t v, Target d target t v → HasRoom v position := by
  obtain ⟨v, hv, hopen⟩ := (Option.any_eq_true ..).mp h
  obtain ⟨t, htarget⟩ := exists_target hv
  intro t' v' htarget'
  rw [htarget'.eq htarget]
  exact .inr (.inr (by simpa using hopen))

/-- Two items at the end of a list, one after the other. -/
theorem insertions_between_children_item :
    let d : Draft := ⟨"a.tsx", .tsx, "const list = (\n  <ul>\n    <li>a</li>\n  </ul>\n);\n"⟩
    let result := "const list = (\n  <ul>\n    <li>a</li>\n    <li/>\n    <li/>\n  </ul>\n);\n"
    ∃ o o', (((insertion "ul" "<li/>" .insideEnd).apply d).on .plain).1 = .ok o ∧
      (((insertion "ul" "<li/>" .insideEnd).apply (d.advance o.text)).on .plain).1 = .ok o' ∧ o'.text = result ∧
      (∃ t v, Target d "ul" t v ∧ ∃ front s rest, d.text.toList = front ++ rest ∧
        o.text.toList = front ++ (s ++ rest) ∧ Text.words s = ["<li/>".toList] ∧
        Place t v .insideEnd (byteSize front)) ∧
      Repeats "ul" "<li/>" .insideEnd d 2 (d.advance result) ∧ d.text.toList.Sublist result.toList := by
  intro d result
  let middle := "const list = (\n  <ul>\n    <li>a</li>\n    <li/>\n  </ul>\n);\n"
  have hfirst : (((insertion "ul" "<li/>" .insideEnd).apply d).on .plain).1.toOption.any
      (fun o => o.text == middle) = true := by
    decide +kernel
  have hsecond : (((insertion "ul" "<li/>" .insideEnd).apply (d.advance middle)).on .plain).1.toOption.any
      (fun o => o.text == result) = true := by
    decide +kernel
  have hroom : ∀ t v, Target d "ul" t v → HasRoom v .insideEnd := hasRoom_of_findTarget? (by decide +kernel)
  have hroom' : ∀ t v, Target (d.advance middle) "ul" t v → HasRoom v .insideEnd :=
    hasRoom_of_findTarget? (by decide +kernel)
  obtain ⟨o, ho, htext⟩ := (Option.any_eq_true ..).mp hfirst
  obtain ⟨o', ho', htext'⟩ := (Option.any_eq_true ..).mp hsecond
  have ho := toOption_eq_some_iff.mp ho
  have ho' := toOption_eq_some_iff.mp ho'
  have htext := eq_of_beq htext
  have htext' := eq_of_beq htext'
  rw [← htext] at ho' hroom'
  have hdiscerns (m : StateM Reader (Except Failure Outcome)) : Reader.plain.Discerns m :=
    Reader.discerns_of_uncached rfl m
  obtain ⟨hstep, hruns⟩ := insertions_between_children "ul" "<li/>" .insideEnd d
  obtain ⟨t, v, htarget, hplace⟩ := hstep .plain o Reader.exact_plain (hdiscerns _) ho
  have hrepeats : Repeats "ul" "<li/>" .insideEnd d 2 (d.advance result) := by
    have h := Repeats.succ (.succ .zero Reader.exact_plain (hdiscerns _) ho hroom) Reader.exact_plain
      (hdiscerns _) ho' hroom'
    rwa [htext'] at h
  refine ⟨o, o', ho, ho', htext', ⟨t, v, htarget, hplace (hroom t v htarget)⟩, hrepeats, ?_⟩
  exact (hruns 2 _ hrepeats).2.1

end Element

end SourceChange
