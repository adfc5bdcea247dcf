import Mathlib.Data.List.Forall2
import SourceChange.Proofs.Syntax.Spans
import SourceChange.Syntax.Cursor

/-!
The way of a cursor through a text.

A cursor that is `Good` stands at the offset of what is left of the text, and the comments that it has
passed lie before it in their order. `Cursor.Reaches` says of two positions that a row of nodes was read
between them: the nodes are nested and on boundaries of characters, and no comment cuts through one.
-/

namespace SourceChange.Syntax

theorem byteSize_append (xs ys : List Char) : byteSize (xs ++ ys) = byteSize xs + byteSize ys := by
  induction xs with
  | nil => simp [byteSize]
  | cons c xs ih => simp [byteSize, ih, Nat.add_assoc]

theorem byteSize_pos {cs : List Char} (h : cs ≠ []) : 0 < byteSize cs := by
  cases cs with
  | nil => exact absurd rfl h
  | cons c cs =>
    have := c.utf8Size_pos
    rw [byteSize]
    omega

/-- An offset between two characters of a text, or at one of its ends. -/
def Boundary (text : List Char) (offset : Nat) : Prop :=
  ∃ front, front <+: text ∧ byteSize front = offset

theorem boundary_iff {text : List Char} {offset : Nat} :
    Boundary text offset ↔ ∃ n < text.length + 1, byteSize (text.take n) = offset := by
  constructor
  · rintro ⟨front, hfront, hsize⟩
    refine ⟨front.length, Nat.lt_succ_of_le hfront.length_le, ?_⟩
    rwa [← List.prefix_iff_eq_take.mp hfront]
  · rintro ⟨n, -, hsize⟩
    exact ⟨_, List.take_prefix n text, hsize⟩

instance (text : List Char) (offset : Nat) : Decidable (Boundary text offset) :=
  decidable_of_iff _ boundary_iff.symm

theorem Boundary.le {text : List Char} {offset : Nat} (h : Boundary text offset) :
    offset ≤ byteSize text := by
  obtain ⟨front, ⟨rest, rfl⟩, rfl⟩ := h
  rw [byteSize_append]
  omega

theorem boundary_zero (text : List Char) : Boundary text 0 := ⟨[], List.nil_prefix, rfl⟩

theorem boundary_byteSize (text : List Char) : Boundary text (byteSize text) :=
  ⟨text, List.prefix_refl _, rfl⟩

/-- A character stands at an offset of a text. -/
def MarkAt (text : List Char) (mark : Char) (offset : Nat) : Prop :=
  ∃ front rest, front ++ mark :: rest = text ∧ byteSize front = offset

/-- A brace stands at an offset of a text. -/
def BraceAt (text : List Char) (offset : Nat) : Prop :=
  ∃ front rest, front ++ '\x7b' :: rest = text ∧ byteSize front = offset

/-- The marks that literals stand between. -/
def quoteMarks : List Char := ['\x27', '\x22', '\x60']

theorem utf8Size_of_mem_quoteMarks {q : Char} (h : q ∈ quoteMarks) : q.utf8Size = 1 := by
  simp only [quoteMarks, List.mem_cons, List.not_mem_nil, or_false] at h
  obtain rfl | rfl | rfl := h <;> rfl

/-- A range of a text starts and ends with the same quote. -/
def QuotedAt (text : List Char) (s : Span) : Prop :=
  ∃ q ∈ quoteMarks, ∃ last, MarkAt text q s.start ∧ MarkAt text q last ∧ s.start < last ∧ s.stop = last + 1

theorem BraceAt.boundary_succ {text : List Char} {offset : Nat} (h : BraceAt text offset) :
    Boundary text (offset + 1) := by
  obtain ⟨front, rest, rfl, rfl⟩ := h
  refine ⟨front ++ ['\x7b'], ⟨rest, by simp⟩, ?_⟩
  rw [byteSize_append]
  rfl

/-- Blocks and lists of parameters, which stand in brackets. -/
def Kind.isBracketed (k : Kind) : Bool :=
  k == .construct .statementBlock || k == .construct .formalParameters

@[simp] theorem Kind.isBracketed_construct (c : Construct) :
    (construct c).isBracketed = (c == .statementBlock || c == .formalParameters) :=
  Bool.eq_iff_iff.mpr (by simp [isBracketed])

@[simp] theorem Kind.isBracketed_token (t : String) : (token t).isBracketed = false := rfl

/-- Literals that stand between quotes. -/
def Kind.isQuoted (k : Kind) : Bool :=
  k == .construct .stringLiteral || k == .construct .templateString

/-- What starts and ends in a way of its own: in brackets, between quotes or between tags. -/
def Kind.isEnclosed (k : Kind) : Bool :=
  k.isBracketed || k.isQuoted || k == .construct .jsxElement

@[simp] theorem Kind.isEnclosed_construct (c : Construct) :
    (construct c).isEnclosed =
      (c == .statementBlock || c == .formalParameters || c == .stringLiteral || c == .templateString ||
        c == .jsxElement) :=
  Bool.eq_iff_iff.mpr (by simp [isEnclosed, isBracketed, isQuoted, or_assoc])

@[simp] theorem Kind.isEnclosed_token (t : String) : (token t).isEnclosed = false := rfl

namespace Node

/-- A node starts with a token, behind which it goes on. -/
def Opens (n : Node) : Prop :=
  ∃ b ∈ n.children, b.kind.isNamed = false ∧ b.start = n.start ∧ b.start < b.stop ∧ b.stop < n.stop

/-- A node starts with its opening tag and ends with its closing tag. -/
structure Tagged (n : Node) : Prop where
  start : (n.child? .openTag).map start = some n.start
  stop : (n.child? .closeTag).map stop = some n.stop

/-- How a node starts and ends, by its kind: a block with a brace, what stands in brackets with a token, a
literal with its quotes and an element with its tags. -/
structure Enclosed (text : List Char) (n : Node) : Prop where
  brace : n.is .statementBlock = true → BraceAt text n.start
  opens : n.kind.isBracketed = true → n.Opens
  quoted : n.kind.isQuoted = true → QuotedAt text n.span
  tagged : n.is .jsxElement = true → n.Tagged

/-- What is known of a node by its kind and its span: it is not empty, it starts and ends at boundaries of
characters, and as its kind asks for. -/
structure Proper (text : List Char) (n : Node) : Prop extends n.Enclosed text where
  start_lt : n.start < n.stop
  start : Boundary text n.start
  stop : Boundary text n.stop

theorem isBracketed_of_is {n : Node} (h : n.is .statementBlock = true) : n.kind.isBracketed = true :=
  Bool.or_eq_true_iff.mpr (.inl h)

theorem isEnclosed_of_isBracketed {k : Kind} (h : k.isBracketed = true) : k.isEnclosed = true := by
  simp [Kind.isEnclosed, h]

theorem isEnclosed_of_isQuoted {k : Kind} (h : k.isQuoted = true) : k.isEnclosed = true := by
  simp [Kind.isEnclosed, h]

theorem isEnclosed_of_isElement {n : Node} (h : n.is .jsxElement = true) : n.kind.isEnclosed = true :=
  Bool.or_eq_true_iff.mpr (.inr h)

/-- Nodes of all other kinds start and end as they like. -/
theorem enclosed_of_plain {text : List Char} {n : Node} (h : n.kind.isEnclosed = false) :
    n.Enclosed text := by
  have hno : ¬ n.kind.isEnclosed = true := Bool.eq_false_iff.mp h
  exact ⟨fun hk => absurd (isEnclosed_of_isBracketed (isBracketed_of_is hk)) hno,
    fun hk => absurd (isEnclosed_of_isBracketed hk) hno, fun hk => absurd (isEnclosed_of_isQuoted hk) hno,
    fun hk => absurd (isEnclosed_of_isElement hk) hno⟩

/-- An extra node, such as a comment, lies before a node, within it or after it. -/
def Apart (extra n : Node) : Prop :=
  extra.stop ≤ n.start ∨ (n.start ≤ extra.start ∧ extra.stop ≤ n.stop) ∨ n.stop ≤ extra.start

/-- A node without its role. -/
def bare : Node → Node
  | mk k _ s cs => mk k none s cs

@[simp] theorem bare_withRole (n : Node) (r : Role) : (n.withRole r).bare = n.bare := by
  cases n
  rfl

@[simp] theorem role_withRole (n : Node) (r : Role) : (n.withRole r).role = some r := by
  cases n
  rfl

@[simp] theorem stop_withRole (n : Node) (r : Role) : (n.withRole r).stop = n.stop := by
  cases n
  rfl

variable {text : List Char} {extra n m : Node}

/-- A node with the same span and the same children, of the same kind if that tells how it starts. -/
structure Relabels (n m : Node) : Prop where
  span : m.span = n.span
  children : m.children = n.children
  enclosed : m.kind.isEnclosed = true → m.kind = n.kind

theorem relabels_of_bare_eq (h : n.bare = m.bare) : n.Relabels m := by
  obtain ⟨k, r, s, cs⟩ := n
  obtain ⟨k', r', s', cs'⟩ := m
  rw [bare, bare, mk.injEq] at h
  obtain ⟨rfl, -, rfl, rfl⟩ := h
  exact ⟨rfl, rfl, fun _ => rfl⟩

theorem relabels_withKind (n : Node) {kind : Kind} (hkind : kind.isEnclosed = false) :
    n.Relabels (n.withKind kind) := by
  obtain ⟨k, r, s, cs⟩ := n
  exact ⟨rfl, rfl, fun henclosed => absurd henclosed (Bool.eq_false_iff.mp hkind)⟩

theorem Relabels.withRole (h : n.Relabels m) (r : Role) : n.Relabels (m.withRole r) := by
  obtain ⟨k', r', s', cs'⟩ := m
  exact ⟨h.span, h.children, h.enclosed⟩

theorem Relabels.nested (h : n.Relabels m) (hn : n.Nested) : m.Nested := by
  rw [nested_iff] at hn ⊢
  rw [start, stop, h.span, h.children]
  exact hn

theorem Enclosed.relabel (hn : n.Enclosed text) (h : n.Relabels m) : m.Enclosed text := by
  cases hkind : m.kind.isEnclosed with
  | false => exact enclosed_of_plain hkind
  | true =>
    -- only the role of the node may have changed
    obtain ⟨k, r, s, cs⟩ := n
    obtain ⟨k', r', s', cs'⟩ := m
    obtain ⟨rfl, rfl, hsame⟩ := h
    obtain rfl : k' = k := hsame hkind
    obtain ⟨hbrace, hopens, hquoted, htagged⟩ := hn
    exact ⟨hbrace, hopens, hquoted, fun helement => ⟨(htagged helement).start, (htagged helement).stop⟩⟩

theorem Proper.relabel (hn : n.Proper text) (h : n.Relabels m) : m.Proper text := by
  obtain ⟨henclosed, hlt, hstart, hstop⟩ := hn
  have hs : m.start = n.start := congrArg Span.start h.span
  have ht : m.stop = n.stop := congrArg Span.stop h.span
  exact ⟨henclosed.relabel h, by omega, hs ▸ hstart, ht ▸ hstop⟩

theorem Apart.congr (hn : extra.Apart n) (hspan : m.span = n.span) : extra.Apart m := by
  have hs : m.start = n.start := congrArg Span.start hspan
  have ht : m.stop = n.stop := congrArg Span.stop hspan
  unfold Apart at hn ⊢
  rwa [hs, ht]

end Node

namespace Cursor

/-- A position that a way through a text can come to. -/
structure Good (text : List Char) (c : Cursor) : Prop where
  placed : ∃ front, front ++ c.rest = text ∧ byteSize front = c.offset
  last_le : c.last ≤ c.offset
  last_boundary : Boundary text c.last
  extras : ∀ k ∈ c.comments, k.Proper text ∧ k.children = [] ∧ k.stop ≤ c.offset
  /-- No comment reaches across the end of the last token. -/
  sides : ∀ k ∈ c.comments, k.stop ≤ c.last ∨ c.last ≤ k.start
  roles : ∀ k ∈ c.comments, k.role = none
  ordered : c.comments.Pairwise fun later earlier => earlier.stop ≤ later.start

/-- Between two positions some nodes were read. -/
structure Reaches (text : List Char) (c c' : Cursor) (ns : List Node) : Prop where
  good : c'.Good text
  offset_le : c.offset ≤ c'.offset
  last_le : c.last ≤ c'.last
  row : Node.Row c.offset c'.last ns
  proper : ∀ n ∈ ns, ∀ m ∈ n.walk, m.Proper text ∧ ∀ k ∈ c'.comments, k.Apart m
  comments : ∃ passed, c'.comments = passed ++ c.comments ∧ ∀ k ∈ passed, c.offset ≤ k.start

variable {text : List Char} {c c' c₁ c₂ : Cursor} {front ns ms : List Node}

theorem good_ofChars (text : List Char) : (ofChars text).Good text where
  placed := ⟨[], rfl, rfl⟩
  last_le := Nat.le_refl _
  last_boundary := boundary_zero text
  extras := fun k hk => by cases hk
  sides := fun k hk => by cases hk
  roles := fun k hk => by cases hk
  ordered := .nil

theorem Good.offset_boundary (h : c.Good text) : Boundary text c.offset := by
  obtain ⟨front, hfront, hsize⟩ := h.placed
  exact ⟨front, ⟨c.rest, hfront⟩, hsize⟩

/-- Only where a cursor stands matters, not what it expects there. -/
theorem Good.congr (h : c.Good text) (hrest : c'.rest = c.rest) (hoffset : c'.offset = c.offset)
    (hlast : c'.last = c.last) (hcomments : c'.comments = c.comments) : c'.Good text := by
  obtain ⟨hplaced, hle, hboundary, hextras, hsides, hroles, hordered⟩ := h
  refine ⟨?_, by omega, hlast ▸ hboundary, ?_, ?_, hcomments ▸ hroles, hcomments ▸ hordered⟩
  · rwa [hrest, hoffset]
  · rwa [hcomments, hoffset]
  · rwa [hcomments, hlast]

theorem Good.reaches_same (h : c.Good text) (hrest : c'.rest = c.rest) (hoffset : c'.offset = c.offset)
    (hlast : c'.last = c.last) (hcomments : c'.comments = c.comments) : c.Reaches text c' [] where
  good := h.congr hrest hoffset hlast hcomments
  offset_le := by omega
  last_le := by omega
  row := trivial
  proper := fun n hn => by cases hn
  comments := ⟨[], by simp [hcomments], fun k hk => by cases hk⟩

theorem Good.reaches_refl (h : c.Good text) : c.Reaches text c [] := h.reaches_same rfl rfl rfl rfl

theorem Reaches.trans (h₁ : c.Reaches text c₁ ns) (h₂ : c₁.Reaches text c₂ ms) :
    c.Reaches text c₂ (ns ++ ms) := by
  have hlast := h₁.good.last_le
  obtain ⟨passed₁, hpassed₁, hfrom₁⟩ := h₁.comments
  obtain ⟨passed₂, hpassed₂, hfrom₂⟩ := h₂.comments
  have hoffset := h₁.offset_le
  refine ⟨h₂.good, Nat.le_trans h₁.offset_le h₂.offset_le, Nat.le_trans h₁.last_le h₂.last_le, ?_, ?_, ?_⟩
  · exact h₁.row.append h₂.row hlast (Nat.le_trans h₁.offset_le (Nat.le_refl _)) h₂.last_le
  · intro n hn m hm
    obtain hn | hn := List.mem_append.mp hn
    · obtain ⟨hproper, hapart⟩ := h₁.proper n hn m hm
      refine ⟨hproper, fun k hk => ?_⟩
      rw [hpassed₂] at hk
      obtain hk | hk := List.mem_append.mp hk
      · -- a comment that came later lies behind the node
        obtain ⟨-, hstop, hnested⟩ := h₁.row.of_mem hn
        have hbelow := (hnested.of_mem_walk hm).2.1
        have hlater := hfrom₂ k hk
        exact .inr (.inr (by omega))
      · exact hapart k hk
    · exact h₂.proper n hn m hm
  · refine ⟨passed₂ ++ passed₁, by rw [hpassed₂, hpassed₁, List.append_assoc], fun k hk => ?_⟩
    obtain hk | hk := List.mem_append.mp hk
    · exact Nat.le_trans hoffset (hfrom₂ k hk)
    · exact hfrom₁ k hk

theorem Reaches.then_nothing (h₁ : c.Reaches text c₁ ns) (h₂ : c₁.Reaches text c₂ []) :
    c.Reaches text c₂ ns := by
  simpa using h₁.trans h₂

theorem row_relabel {lo hi : Nat} (h : List.Forall₂ Node.Relabels ns ms) (hrow : Node.Row lo hi ns) :
    Node.Row lo hi ms := by
  induction h generalizing lo with
  | nil => trivial
  | @cons n m ns ms hrelabels _ ih =>
    obtain ⟨hlo, hhi, hnested, hrest⟩ := hrow
    have hstart : m.start = n.start := congrArg Span.start hrelabels.span
    have hstop : m.stop = n.stop := congrArg Span.stop hrelabels.span
    exact ⟨by omega, by omega, hrelabels.nested hnested, ih (hstop ▸ hrest)⟩

theorem exists_mem_of_relabels (h : List.Forall₂ Node.Relabels ns ms) {m : Node} (hm : m ∈ ms) :
    ∃ n ∈ ns, n.Relabels m := by
  induction h with
  | nil => cases hm
  | cons hrelabels _ ih =>
    obtain rfl | hm := List.mem_cons.mp hm
    · exact ⟨_, List.mem_cons_self, hrelabels⟩
    · obtain ⟨n, hn, h⟩ := ih hm
      exact ⟨n, List.mem_cons_of_mem _ hn, h⟩

/-- The kinds and the roles of the nodes do not matter. -/
theorem Reaches.relabel (h : c.Reaches text c' ns) (heq : List.Forall₂ Node.Relabels ns ms) :
    c.Reaches text c' ms := by
  refine ⟨h.good, h.offset_le, h.last_le, row_relabel heq h.row, fun m hm k hk => ?_, h.comments⟩
  obtain ⟨n, hn, hrelabels⟩ := exists_mem_of_relabels heq hm
  obtain rfl | ⟨child, hchild, hk⟩ := Node.mem_walk.mp hk
  · obtain ⟨hproper, hapart⟩ := h.proper n hn n n.self_mem_walk
    exact ⟨hproper.relabel hrelabels, fun e he => (hapart e he).congr hrelabels.span⟩
  · exact h.proper n hn k (Node.mem_walk_of_child (hrelabels.children ▸ hchild) hk)

/-- The roles of the nodes do not matter. -/
theorem Reaches.congr (h : c.Reaches text c' ns) (heq : ns.map Node.bare = ms.map Node.bare) :
    c.Reaches text c' ms := by
  refine h.relabel ?_
  have hbare : List.Forall₂ (fun n m => n = Node.bare m) (ns.map Node.bare) ms := by
    rw [heq, List.forall₂_map_left_iff]
    exact List.forall₂_same.mpr fun _ _ => rfl
  exact (List.forall₂_map_left_iff.mp hbare).imp fun _ _ => Node.relabels_of_bare_eq

theorem Good.past (h : c.Good text) {taken rest : List Char} (hrest : taken ++ rest = c.rest) :
    c.Reaches text (c.past taken rest) [] := by
  obtain ⟨front, hfront, hsize⟩ := h.placed
  have hle : c.offset ≤ (c.past taken rest).offset := Nat.le_add_right _ _
  refine ⟨⟨⟨front ++ taken, ?_, ?_⟩, Nat.le_trans h.last_le hle, h.last_boundary, fun k hk => ?_,
    h.sides, h.roles, h.ordered⟩, hle, Nat.le_refl _, trivial, fun n hn => (by cases hn), [], rfl,
    fun k hk => by cases hk⟩
  · rw [List.append_assoc]
    exact (congrArg (front ++ ·) hrest).trans hfront
  · rw [byteSize_append, hsize]
    rfl
  · obtain ⟨hproper, hchildren, hstop⟩ := h.extras k hk
    exact ⟨hproper, hchildren, Nat.le_trans hstop hle⟩

/-- A leaf that was just read. -/
theorem Good.leaf_proper (h : c.Good text) {taken rest : List Char} (hrest : taken ++ rest = c.rest)
    (htaken : taken ≠ []) (kind : Kind) (hkind : kind.isEnclosed = false) :
    (Node.mk kind none ⟨c.offset, c.offset + byteSize taken⟩ []).Proper text where
  toEnclosed := Node.enclosed_of_plain hkind
  start_lt := Nat.lt_add_of_pos_right (byteSize_pos htaken)
  start := h.offset_boundary
  stop := (h.past hrest).good.offset_boundary

theorem Good.pastExtra (h : c.Good text) {taken rest : List Char} (hrest : taken ++ rest = c.rest)
    (htaken : taken ≠ []) {kind : Construct} (hkind : (Kind.construct kind).isEnclosed = false) :
    c.Reaches text (c.pastExtra kind taken rest) [] := by
  obtain ⟨hgood, hle, -, -, -, -⟩ := h.past hrest
  have hextra := h.leaf_proper hrest htaken (.construct kind) hkind
  have hlast := h.last_le
  refine ⟨⟨hgood.placed, hgood.last_le, h.last_boundary, fun k hk => ?_, fun k hk => ?_,
    List.forall_mem_cons.mpr ⟨rfl, h.roles⟩, ?_⟩, hle, Nat.le_refl _, trivial, fun n hn => (by cases hn), [_],
    rfl, fun k hk => ?_⟩
  · obtain rfl | hk := List.mem_cons.mp hk
    · exact ⟨hextra, rfl, Nat.le_refl _⟩
    · exact hgood.extras k hk
  · obtain rfl | hk := List.mem_cons.mp hk
    · exact .inr hlast
    · exact h.sides k hk
  · exact List.pairwise_cons.mpr ⟨fun k hk => (h.extras k hk).2.2, h.ordered⟩
  · obtain rfl := List.mem_singleton.mp hk
    exact Nat.le_refl _

/-- The end of what was passed may count as the end of the last token. -/
theorem Good.upToHere (h : c.Good text) : c.Reaches text { c with last := c.offset } [] where
  good := ⟨h.placed, Nat.le_refl _, h.offset_boundary, h.extras,
    fun k hk => .inl (h.extras k hk).2.2, h.roles, h.ordered⟩
  offset_le := Nat.le_refl _
  last_le := h.last_le
  row := trivial
  proper := fun n hn => by cases hn
  comments := ⟨[], rfl, fun k hk => by cases hk⟩

/-- A leaf that stands at the position of the cursor. -/
theorem Good.leaf (h : c.Good text) {taken rest : List Char} (hrest : taken ++ rest = c.rest)
    (htaken : taken ≠ []) {kind : Kind} (hkind : kind.isEnclosed = false) :
    c.Reaches text { c.past taken rest with last := (c.past taken rest).offset }
      [.mk kind none ⟨c.offset, (c.past taken rest).offset⟩ []] := by
  have hmoved := (h.past hrest).good.upToHere
  have hproper := h.leaf_proper hrest htaken kind hkind
  obtain ⟨-, hle, -, -, -, -⟩ := h.past hrest
  refine ⟨hmoved.good, hle, Nat.le_trans h.last_le hle, ?_, fun n hn m hm => ?_, [], rfl,
    fun k hk => by cases hk⟩
  · exact ⟨Nat.le_refl _, Nat.le_refl _, ⟨hle, trivial⟩, trivial⟩
  · obtain rfl := List.mem_singleton.mp hn
    obtain rfl | ⟨child, hchild, -⟩ := Node.mem_walk.mp hm
    · exact ⟨hproper, fun k hk => .inl (h.extras k hk).2.2⟩
    · cases hchild

/-- A row of two or more nodes starts with a node behind which it goes on. -/
theorem opens_of_row {lo hi : Nat} {left : Node} (kind : Kind) (role : Option Role)
    (hrow : Node.Row lo hi (left :: ns)) (hproper : ∀ n ∈ left :: ns, n.start < n.stop) (hne : ns ≠ [])
    (htoken : left.kind.isNamed = false) : (Node.mk kind role ⟨left.start, hi⟩ (left :: ns)).Opens := by
  obtain ⟨n, hn⟩ := List.exists_mem_of_ne_nil ns hne
  obtain ⟨hafter, hstop, -⟩ := hrow.2.2.2.of_mem hn
  have hlt := hproper n (List.mem_cons_of_mem _ hn)
  exact ⟨left, List.mem_cons_self, htoken, rfl, hproper left List.mem_cons_self,
    Nat.lt_of_le_of_lt hafter (Nat.lt_of_lt_of_le hlt hstop)⟩

/-- The node over what was read last. -/
theorem Reaches.node (h : c.Reaches text c' (front ++ ns)) (hne : ns ≠ []) {kind : Kind}
    (henclosed :
      (Node.mk kind none ⟨(ns.head?.map Node.start).getD c'.last, c'.last⟩ ns).Enclosed text) :
    c.Reaches text c' (front ++ [.mk kind none ⟨(ns.head?.map Node.start).getD c'.last, c'.last⟩ ns]) := by
  obtain ⟨n, ns, rfl⟩ := List.exists_cons_of_ne_nil hne
  obtain ⟨-, hstop, -⟩ := h.row.of_mem (n := n) (by simp)
  obtain ⟨hproper, hapart⟩ := h.proper n (by simp) n n.self_mem_walk
  have hlt := hproper.start_lt
  refine ⟨h.good, h.offset_le, h.last_le, ?_, fun m hm k hk => ?_, h.comments⟩
  · refine h.row.exchange fun lo hrow => ⟨hrow.1, Nat.le_refl _, ⟨?_, hrow.from_start⟩, trivial⟩
    exact Nat.le_trans (Nat.le_of_lt hlt) hstop
  · obtain hm | hm := List.mem_append.mp hm
    · exact h.proper m (by simp [hm]) k hk
    · obtain rfl := List.mem_singleton.mp hm
      obtain rfl | ⟨child, hchild, hk⟩ := Node.mem_walk.mp hk
      · refine ⟨⟨henclosed, Nat.lt_of_lt_of_le hlt hstop, hproper.start, h.good.last_boundary⟩,
          fun e he => ?_⟩
        -- a comment that does not lie before the first child lies within or after the node
        obtain hbefore | hafter : e.stop ≤ n.start ∨ n.start ≤ e.start := by
          rcases hapart e he with hbefore | ⟨hin, -⟩ | hafter
          · exact .inl hbefore
          · exact .inr hin
          · exact .inr (by omega)
        · exact .inl hbefore
        · obtain hin | hout := h.good.sides e he
          · exact .inr (.inl ⟨hafter, hin⟩)
          · exact .inr (.inr hout)
      · exact h.proper child (List.mem_append_right _ hchild) k hk

/-- The children of the node read last stand in its place. -/
theorem Reaches.unwrap {n : Node} (h : c.Reaches text c' (front ++ [n])) :
    c.Reaches text c' (front ++ n.children) := by
  refine ⟨h.good, h.offset_le, h.last_le, ?_, fun m hm k hk => ?_, h.comments⟩
  · exact h.row.exchange fun lo hrow => hrow.2.2.1.row.mono hrow.1 hrow.2.1
  · obtain hm | hm := List.mem_append.mp hm
    · exact h.proper m (by simp [hm]) k hk
    · exact h.proper n (by simp) k (Node.mem_walk_of_child hm hk)

/-- A node with other labels, also on its children. -/
theorem Reaches.rebuild {kind kind' : Kind} {role : Option Role} {span : Span}
    (h : c.Reaches text c' [.mk kind role span ns]) (heq : List.Forall₂ Node.Relabels ns ms)
    (hkind : kind'.isEnclosed = false) : c.Reaches text c' [.mk kind' role span ms] := by
  obtain ⟨hstart, hstop, ⟨hle, hrow⟩, -⟩ := h.row
  have houter : c.Reaches text c' ([] ++ [.mk kind role span ns]) := h
  have hinner : c.Reaches text c' ms := houter.unwrap.relabel heq
  refine ⟨h.good, h.offset_le, h.last_le, ⟨hstart, hstop, ⟨hle, row_relabel heq hrow⟩, trivial⟩,
    fun m hm k hk => ?_, h.comments⟩
  obtain rfl := List.mem_singleton.mp hm
  obtain rfl | ⟨child, hchild, hk⟩ := Node.mem_walk.mp hk
  · obtain ⟨⟨-, hlt, hfrom, hto⟩, hapart⟩ := h.proper _ List.mem_cons_self _ (Node.self_mem_walk _)
    exact ⟨⟨Node.enclosed_of_plain hkind, hlt, hfrom, hto⟩, hapart⟩
  · exact hinner.proper child hchild k hk

end Cursor

end SourceChange.Syntax
