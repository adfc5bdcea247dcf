import SourceChange.Proofs.Handles

/-!
Nodes in brackets.

What stands in brackets starts with a token and goes on behind it. So all its parts start behind the token, and
nothing in it has the span of the whole: the way down to that span ends with the node in brackets, next to the node
that it belongs to.
-/

namespace SourceChange.Syntax

namespace Node

variable {lo hi : Nat} {n m f root : Node} {ns : List Node} {s : Span}

/-- The members of a row stand one after the other. -/
theorem Row.pairwise (h : Row lo hi ns) : ns.Pairwise fun a b => a.stop ≤ b.start := by
  induction ns generalizing lo with
  | nil => exact .nil
  | cons n ns ih =>
    obtain ⟨-, -, -, hrest⟩ := h
    exact .cons (fun m hm => (hrest.of_mem hm).1) (ih hrest)

/-- Two members of a row lie apart. -/
theorem Row.apart (h : Row lo hi ns) (hn : n ∈ ns) (hm : m ∈ ns) :
    n = m ∨ n.stop ≤ m.start ∨ m.stop ≤ n.start := by
  induction ns generalizing lo with
  | nil => cases hn
  | cons k ns ih =>
    obtain ⟨-, -, -, hrest⟩ := h
    rcases List.mem_cons.mp hn with rfl | hn' <;> rcases List.mem_cons.mp hm with rfl | hm'
    · exact .inl rfl
    · exact .inr (.inl (hrest.of_mem hm').1)
    · exact .inr (.inr (hrest.of_mem hn').1)
    · exact ih hrest hn' hm'

theorem Nested.pairwise_parts (h : n.Nested) : n.parts.Pairwise fun a b => a.stop ≤ b.start :=
  (h.row.pairwise.filter _).filter _

/-- The parts of a node start behind the token that it starts with. -/
theorem Opens.start_lt_child (h : n.Opens) (hn : n.Nested) (hm : m ∈ n.children)
    (hnamed : m.kind.isNamed = true) (hne : m.start < m.stop) : n.start < m.start := by
  obtain ⟨b, hb, htoken, hstart, hlt, -⟩ := h
  obtain ⟨hlo, -, -⟩ := hn.row.of_mem hm
  obtain rfl | hbefore | hafter := hn.row.apart hb hm
  · cases htoken.symm.trans hnamed
  · omega
  · omega

/-- No child of such a node reaches over it. -/
theorem Opens.not_covers (h : n.Opens) (hn : n.Nested) (hm : m ∈ n.children) : ¬ m.Covers n.span := by
  rintro ⟨hfrom, hto⟩
  obtain ⟨b, hb, -, hstart, hlt, hstop⟩ := h
  have hfrom : m.start ≤ n.start := hfrom
  have hto : n.stop ≤ m.stop := hto
  obtain rfl | hbefore | hafter := hn.row.apart hb hm <;> omega

/-- The way down to a node whose children are all shorter comes from its parent and ends there. -/
theorem cover_eq_of_child (hroot : root.Nested) (hf : f ∈ root.walk) (hn : n ∈ f.children)
    (hne : n.start < n.stop) (hshorter : ∀ m ∈ n.children, ¬ m.Covers n.span) :
    ∃ above, root.cover n.span = n :: f :: above := by
  have hnested := (hroot.of_mem_walk hf).2.2
  obtain ⟨hlo, hhi, hn'⟩ := hnested.row.of_mem hn
  obtain ⟨above, depth, hdepth, hreach⟩ := coverFrom_reaches hroot hf ⟨hlo, hhi⟩ hne [] (Nat.le_refl _)
  have hless := depth_child_lt hn
  obtain ⟨depth, rfl⟩ : ∃ d, depth = d + 1 := Nat.exists_eq_add_one_of_ne_zero (by omega)
  have hself : n.Covers n.span := ⟨Nat.le_refl _, Nat.le_refl _⟩
  refine ⟨above, hreach.trans ?_⟩
  rw [coverFrom, find?_enters hnested.row hn hself hne]
  dsimp only
  rw [if_pos hself.1]
  cases depth with
  | zero => rfl
  | succ depth =>
    rw [coverFrom]
    split
    case h_2 => rfl
    case h_1 c hfind =>
      have henters := List.find?_some hfind
      simp only [Bool.and_eq_true, decide_eq_true_eq] at henters
      refine if_neg fun hstart => ?_
      exact hshorter c (List.mem_of_find?_eq_some hfind) ⟨hstart, henters.1⟩

end Node

end SourceChange.Syntax

namespace SourceChange.Source.Tree

open Syntax Syntax.Node

variable {t : Tree} {n m f : Node}

theorem Built.enclosed (ht : t.Built) (hn : n ∈ t.rootD.walk) : n.Enclosed t.chars := by
  obtain ⟨-, hparses⟩ | hempty := ht.rootD
  · exact hparses.enclosed n hn
  · rw [hempty] at hn
    obtain rfl | ⟨c, hc, -⟩ := mem_walk.mp hn
    · exact enclosed_of_plain rfl
    · cases hc

/-- A tree with a node below another one was read, and no node of it is empty. -/
theorem Built.of_child (ht : t.Built) (hm : m ∈ t.rootD.walk) (hn : n ∈ m.children) :
    t.root = .ok t.rootD ∧ ∀ k ∈ t.rootD.walk, k.start < k.stop := by
  obtain ⟨hroot, hparses⟩ | hempty := ht.rootD
  · refine ⟨hroot, hparses.solid fun hnone => ?_⟩
    obtain rfl | ⟨c, hc, -⟩ := mem_walk.mp hm
    · rw [hnone] at hn
      cases hn
    · rw [hnone] at hc
      cases hc
  · rw [hempty] at hm
    obtain rfl | ⟨c, hc, -⟩ := mem_walk.mp hm
    · cases hn
    · cases hc

theorem mem_children_of_mem_parts (hn : n ∈ m.parts) : n ∈ m.children :=
  (List.mem_filter.mp (List.mem_filter.mp hn).1).1

/-- The parts of a node are not empty. -/
theorem Built.part_start_lt_stop (ht : t.Built) (hm : m ∈ t.rootD.walk) (hn : n ∈ m.parts) :
    n.start < n.stop := by
  have hn := mem_children_of_mem_parts hn
  exact (ht.of_child hm hn).2 n (mem_walk_trans hm (child_mem_walk hn))

/-- The statements of a block start behind its brace. -/
theorem Built.block_start_lt (ht : t.Built) (hm : m ∈ t.rootD.walk) (hblock : m.is .statementBlock = true)
    (hn : n ∈ m.parts) : m.start < n.start := by
  have hnamed := (List.mem_filter.mp (List.mem_filter.mp hn).1).2
  exact ((ht.enclosed hm).opens (isBracketed_of_is hblock)).start_lt_child (ht.regular.nested.of_mem_walk hm).2.2
    (mem_children_of_mem_parts hn) hnamed (ht.part_start_lt_stop hm hn)

/-- The handle of a node whose children are all shorter names this node, below its own parent. -/
theorem Built.resolveVisit_of_child (ht : t.Built) (hf : f ∈ t.rootD.walk) (hn : n ∈ f.children)
    (hshorter : ∀ m ∈ n.children, ¬ m.Covers n.span) :
    ∃ above, t.resolveVisit (t.handle n) = .ok ⟨n, f :: above⟩ := by
  obtain ⟨hroot, hsolid⟩ := ht.of_child hf hn
  have hne := hsolid n (mem_walk_trans hf (child_mem_walk hn))
  obtain ⟨above, hcover⟩ := cover_eq_of_child ht.regular.nested hf hn hne hshorter
  refine ⟨above, ?_⟩
  have hversion : ¬ ((t.handle n).version != t.version) = true := by simp [handle]
  have hspan : (t.handle n).span = n.span := rfl
  have hfound : findOn (t.handle n) (n :: f :: above) = some ⟨n, f :: above⟩ := by simp [findOn, handle]
  unfold resolveVisit
  rw [if_neg hversion, hroot]
  simp only [bind, Except.bind, hspan, hcover, hfound]

/-- The parts of a node in brackets are shorter than it is. -/
theorem Built.shorter_of_isBracketed (ht : t.Built) (hn : n ∈ t.rootD.walk)
    (hbracketed : n.kind.isBracketed = true) : ∀ m ∈ n.children, ¬ m.Covers n.span :=
  fun _ hm => ((ht.enclosed hn).opens hbracketed).not_covers (ht.regular.nested.of_mem_walk hn).2.2 hm

end SourceChange.Source.Tree
