import SourceChange.Syntax.Node

/-!
Trees whose spans are nested.

In a nested tree the children of a node lie within its span, one after the other. Everything below a node
then lies within its span, and the way down to the smallest node that covers a range passes every node
whose span is that range.
-/

namespace SourceChange.Syntax.Node

mutual

/-- The children lie within the span of their parent, one after the other, and so on below. -/
def Nested : Node → Prop
  | mk _ _ s cs => s.start ≤ s.stop ∧ Row s.start s.stop cs

/-- Nested trees that lie between two offsets, one after the other. -/
def Row (lo hi : Nat) : List Node → Prop
  | [] => True
  | n :: ns => lo ≤ n.start ∧ n.stop ≤ hi ∧ Nested n ∧ Row n.stop hi ns

end

mutual

def decideNested : (n : Node) → Decidable n.Nested
  | mk _ _ s cs =>
    have := decideRow s.start s.stop cs
    inferInstanceAs (Decidable (s.start ≤ s.stop ∧ Row s.start s.stop cs))

def decideRow (lo hi : Nat) : (ns : List Node) → Decidable (Row lo hi ns)
  | [] => .isTrue trivial
  | n :: ns =>
    have := decideNested n
    have := decideRow n.stop hi ns
    inferInstanceAs (Decidable (lo ≤ n.start ∧ n.stop ≤ hi ∧ Nested n ∧ Row n.stop hi ns))

end

instance (n : Node) : Decidable n.Nested := decideNested n

@[simp] theorem row_nil (lo hi : Nat) : Row lo hi [] := trivial

theorem row_cons {lo hi : Nat} {n : Node} {ns : List Node} :
    Row lo hi (n :: ns) ↔ lo ≤ n.start ∧ n.stop ≤ hi ∧ n.Nested ∧ Row n.stop hi ns := Iff.rfl

theorem nested_iff {n : Node} : n.Nested ↔ n.start ≤ n.stop ∧ Row n.start n.stop n.children := by
  cases n
  exact Iff.rfl

theorem Nested.start_le_stop {n : Node} (h : n.Nested) : n.start ≤ n.stop := (nested_iff.mp h).1

theorem Nested.row {n : Node} (h : n.Nested) : Row n.start n.stop n.children := (nested_iff.mp h).2

theorem Row.mono {lo lo' hi hi' : Nat} {ns : List Node} (h : Row lo hi ns) (hlo : lo' ≤ lo)
    (hhi : hi ≤ hi') : Row lo' hi' ns := by
  induction ns generalizing lo lo' with
  | nil => trivial
  | cons n ns ih =>
    obtain ⟨hstart, hstop, hnested, hrest⟩ := h
    exact ⟨by omega, by omega, hnested, ih hrest (Nat.le_refl _)⟩

/-- A row may start anywhere before its first member. -/
theorem Row.from_start {lo hi : Nat} {n : Node} {ns : List Node} (h : Row lo hi (n :: ns)) :
    Row n.start hi (n :: ns) :=
  ⟨Nat.le_refl _, h.2.1, h.2.2.1, h.2.2.2⟩

theorem Row.append {lo mid mid' hi : Nat} {ns ms : List Node} (hns : Row lo mid ns)
    (hms : Row mid' hi ms) (hmid : mid ≤ mid') (hlo : lo ≤ mid') (hhi : mid ≤ hi) :
    Row lo hi (ns ++ ms) := by
  induction ns generalizing lo with
  | nil => exact hms.mono hlo (Nat.le_refl _)
  | cons n ns ih =>
    obtain ⟨hstart, hstop, hnested, hrest⟩ := hns
    exact ⟨hstart, by omega, hnested, ih hrest (by omega)⟩

/-- The end of a row may be exchanged. -/
theorem Row.exchange {lo hi : Nat} {front ns ms : List Node} (h : Row lo hi (front ++ ns))
    (hms : ∀ lo, Row lo hi ns → Row lo hi ms) : Row lo hi (front ++ ms) := by
  induction front generalizing lo with
  | nil => exact hms lo h
  | cons n front ih =>
    obtain ⟨hstart, hstop, hnested, hrest⟩ := h
    exact ⟨hstart, hstop, hnested, ih hrest⟩

theorem Row.of_mem {lo hi : Nat} {ns : List Node} (h : Row lo hi ns) {n : Node} (hn : n ∈ ns) :
    lo ≤ n.start ∧ n.stop ≤ hi ∧ n.Nested := by
  induction ns generalizing lo with
  | nil => cases hn
  | cons m ns ih =>
    obtain ⟨hstart, hstop, hnested, hrest⟩ := h
    obtain rfl | hn := List.mem_cons.mp hn
    · exact ⟨hstart, hstop, hnested⟩
    · obtain ⟨hafter, hbefore, hn⟩ := ih hrest hn
      have := hnested.start_le_stop
      exact ⟨by omega, hbefore, hn⟩

theorem mem_walkAll {ns : List Node} {m : Node} : m ∈ walkAll ns ↔ ∃ n ∈ ns, m ∈ n.walk := by
  induction ns with
  | nil => simp [walkAll]
  | cons n ns ih => simp [walkAll, ih]

theorem mem_walk {n m : Node} : m ∈ n.walk ↔ m = n ∨ ∃ c ∈ n.children, m ∈ c.walk := by
  cases n
  rw [walk, List.mem_cons, mem_walkAll]
  rfl

theorem self_mem_walk (n : Node) : n ∈ n.walk := mem_walk.mpr (.inl rfl)

theorem mem_walk_of_child {n c m : Node} (hc : c ∈ n.children) (hm : m ∈ c.walk) : m ∈ n.walk :=
  mem_walk.mpr (.inr ⟨c, hc, hm⟩)

theorem child_mem_walk {n c : Node} (hc : c ∈ n.children) : c ∈ n.walk :=
  mem_walk_of_child hc c.self_mem_walk

theorem depth_le_depthAll {ns : List Node} {n : Node} (hn : n ∈ ns) : n.depth ≤ depthAll ns := by
  induction ns with
  | nil => cases hn
  | cons m ns ih =>
    rw [depthAll]
    obtain rfl | hn := List.mem_cons.mp hn
    · exact Nat.le_max_left _ _
    · exact Nat.le_trans (ih hn) (Nat.le_max_right _ _)

theorem depth_child_lt {n c : Node} (hc : c ∈ n.children) : c.depth < n.depth := by
  obtain ⟨k, r, s, cs⟩ := n
  have hle : c.depth ≤ depthAll cs := depth_le_depthAll hc
  rw [depth]
  omega

/-- What holds of a node and from every node of its children holds of the whole tree. -/
theorem walk_induction {P : Node → Prop} (hchild : ∀ n, P n → ∀ c ∈ n.children, P c) {n : Node}
    (hn : P n) : ∀ m ∈ n.walk, P m := by
  induction hdepth : n.depth using Nat.strongRecOn generalizing n with
  | ind depth ih =>
    intro m hm
    obtain rfl | ⟨c, hc, hm⟩ := mem_walk.mp hm
    · exact hn
    · exact ih c.depth (hdepth ▸ depth_child_lt hc) (hchild n hn c hc) rfl m hm

theorem mem_walk_trans {n m k : Node} (hm : m ∈ n.walk) (hk : k ∈ m.walk) : k ∈ n.walk :=
  walk_induction (P := fun m => ∀ k ∈ m.walk, k ∈ n.walk)
    (fun _ hp _ hc k hk => hp k (mem_walk_of_child hc hk)) (fun _ hk => hk) m hm k hk

/-- Everything in a nested tree lies within its span and is nested itself. -/
theorem Nested.of_mem_walk {n m : Node} (h : n.Nested) (hm : m ∈ n.walk) :
    n.start ≤ m.start ∧ m.stop ≤ n.stop ∧ m.Nested := by
  refine walk_induction (P := fun m => n.start ≤ m.start ∧ m.stop ≤ n.stop ∧ m.Nested)
    (fun p hp c hc => ?_) ⟨Nat.le_refl _, Nat.le_refl _, h⟩ m hm
  obtain ⟨hstart, hstop, hp⟩ := hp
  obtain ⟨hcstart, hcstop, hc⟩ := hp.row.of_mem hc
  exact ⟨by omega, by omega, hc⟩

/-- A node reaches over a range. -/
def Covers (n : Node) (s : Span) : Prop := n.start ≤ s.start ∧ s.stop ≤ n.stop

variable {s : Span}

/-- The first child that is entered for a range that is not empty is the one that covers it. -/
theorem find?_enters {lo hi : Nat} {ns : List Node} (hrow : Row lo hi ns) {c : Node} (hc : c ∈ ns)
    (hcovers : c.Covers s) (hs : s.start < s.stop) :
    ns.find? (fun c => decide (s.stop ≤ c.stop) &&
      (if c.start = c.stop then decide (s.start ≤ c.stop) else decide (s.start < c.stop))) =
        some c := by
  obtain ⟨hstart, hstop⟩ := hcovers
  induction ns generalizing lo with
  | nil => cases hc
  | cons n ns ih =>
    obtain ⟨-, -, hnested, hrest⟩ := hrow
    obtain rfl | hc := List.mem_cons.mp hc
    · rw [List.find?_cons_of_pos]
      have hne : c.start ≠ c.stop := by omega
      simp [hne]
      omega
    · -- a sibling before it ends before the range does
      have hbefore := (hrest.of_mem hc).1
      rw [List.find?_cons_of_neg]
      · exact ih hrest hc
      · simp
        intro hreach
        omega

/-- The way down from a node that covers a range starts with nodes that lie within it and cover the
range, too. -/
theorem coverFrom_eq (n : Node) (hn : n.Nested) (hcovers : n.Covers s) (above : List Node) (depth : Nat) :
    ∃ below, coverFrom s above depth n = below ++ n :: above ∧
      ∀ b ∈ below, b ∈ n.walk ∧ b.Covers s := by
  induction depth generalizing n above with
  | zero => exact ⟨[], rfl, fun b hb => by cases hb⟩
  | succ depth ih =>
    rw [coverFrom]
    split
    case h_1 c hfind =>
      have hc : c ∈ n.children := List.mem_of_find?_eq_some hfind
      have henters := List.find?_some hfind
      split
      case isTrue hstart =>
        have hstop : s.stop ≤ c.stop := by
          simp only [Bool.and_eq_true, decide_eq_true_eq] at henters
          exact henters.1
        obtain ⟨below, heq, hbelow⟩ :=
          ih c (hn.row.of_mem hc).2.2 ⟨hstart, hstop⟩ (n :: above)
        refine ⟨below ++ [c], by simp [heq], fun b hb => ?_⟩
        obtain hb | hb := List.mem_append.mp hb
        · exact ⟨mem_walk_of_child hc (hbelow b hb).1, (hbelow b hb).2⟩
        · obtain rfl := List.mem_singleton.mp hb
          exact ⟨child_mem_walk hc, hstart, hstop⟩
      case isFalse => exact ⟨[], rfl, fun b hb => by cases hb⟩
    case h_2 => exact ⟨[], rfl, fun b hb => by cases hb⟩

/-- The way down passes every node that covers a range that is not empty. -/
theorem coverFrom_reaches {n m : Node} (hn : n.Nested) (hm : m ∈ n.walk) (hcovers : m.Covers s)
    (hs : s.start < s.stop) (above : List Node) {depth : Nat} (hdepth : n.depth ≤ depth) :
    ∃ above' depth', m.depth ≤ depth' ∧ coverFrom s above depth n = coverFrom s above' depth' m := by
  induction depth generalizing n above with
  | zero =>
    obtain ⟨k, r, t, cs⟩ := n
    rw [Node.depth] at hdepth
    omega
  | succ depth ih =>
    obtain rfl | ⟨c, hc, hmc⟩ := mem_walk.mp hm
    · exact ⟨above, depth + 1, hdepth, rfl⟩
    · obtain ⟨-, -, hcn⟩ := hn.row.of_mem hc
      obtain ⟨hstart, hstop, -⟩ := hcn.of_mem_walk hmc
      have hcovers : c.Covers s :=
        ⟨Nat.le_trans hstart hcovers.1, Nat.le_trans hcovers.2 hstop⟩
      have hfind := find?_enters hn.row hc hcovers hs
      have hless := depth_child_lt hc
      obtain ⟨above', depth', hbound, heq⟩ := ih hcn hmc (n :: above) (by omega)
      refine ⟨above', depth', hbound, ?_⟩
      rw [coverFrom, hfind]
      dsimp only
      rw [if_pos hcovers.1, heq]

/-- The way down to a span that is not empty starts with nodes of that span, up to any given one. -/
theorem cover_eq {root n : Node} (hroot : root.Nested) (hn : n ∈ root.walk) (hne : n.start < n.stop) :
    ∃ below above, root.cover n.span = below ++ n :: above ∧
      ∀ b ∈ below, b ∈ root.walk ∧ b.span = n.span := by
  have hnested := (hroot.of_mem_walk hn).2.2
  obtain ⟨above, depth, -, hreach⟩ :=
    coverFrom_reaches hroot hn ⟨Nat.le_refl _, Nat.le_refl _⟩ hne [] (Nat.le_refl _)
  obtain ⟨below, heq, hbelow⟩ :=
    coverFrom_eq n hnested ⟨Nat.le_refl _, Nat.le_refl _⟩ above depth
  refine ⟨below, above, hreach.trans heq, fun b hb => ?_⟩
  obtain ⟨hb, hstart, hstop⟩ := hbelow b hb
  obtain ⟨hstart', hstop', -⟩ := hnested.of_mem_walk hb
  have hspan : b.span = n.span := by
    have h₁ : b.span.start = n.span.start := Nat.le_antisymm hstart hstart'
    have h₂ : b.span.stop = n.span.stop := Nat.le_antisymm hstop' hstop
    cases hbs : b.span
    cases hns : n.span
    rw [hbs, hns] at h₁ h₂
    rw [Span.mk.injEq]
    exact ⟨h₁, h₂⟩
  exact ⟨mem_walk_trans hn hb, hspan⟩

/-- The way down consists of nodes of the tree. -/
theorem mem_walk_of_mem_cover {root n : Node} {s : Span} (hn : n ∈ root.cover s) : n ∈ root.walk := by
  have hfrom (depth : Nat) (m : Node) (above : List Node) (hm : m ∈ root.walk)
      (habove : ∀ a ∈ above, a ∈ root.walk) : ∀ a ∈ coverFrom s above depth m, a ∈ root.walk := by
    induction depth generalizing m above with
    | zero => exact List.forall_mem_cons.mpr ⟨hm, habove⟩
    | succ depth ih =>
      rw [coverFrom]
      split
      case h_1 c hfind =>
        have hc := mem_walk_trans hm (child_mem_walk (List.mem_of_find?_eq_some hfind))
        split
        · exact ih c (m :: above) hc (List.forall_mem_cons.mpr ⟨hm, habove⟩)
        · exact List.forall_mem_cons.mpr ⟨hm, habove⟩
      case h_2 => exact List.forall_mem_cons.mpr ⟨hm, habove⟩
  exact hfrom root.depth root [] root.self_mem_walk (fun a ha => by cases ha) n hn

end SourceChange.Syntax.Node
