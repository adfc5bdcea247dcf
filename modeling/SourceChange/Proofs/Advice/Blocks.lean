import SourceChange.Advice.Candidate
import SourceChange.Proofs.Groups
import SourceChange.Proofs.Syntax.Spans

/-!
Blocks of markup that are repeated.

A block is reported for the first of several elements with the same text, unless it lies in an element that
was counted for a block before. A node that is met after another lies within it or behind it. So the blocks
that are reported stand apart, however the elements that they are repeated in overlap.
-/

namespace SourceChange

namespace Syntax.Node

/-- The second node lies within the first or behind it. -/
def Precedes (a b : Node) : Prop := a.span.contains b.span = true ∨ a.stop ≤ b.start

theorem Precedes.stop_le {a b : Node} (h : a.Precedes b) (hout : a.span.contains b.span = false) :
    a.stop ≤ b.start := h.resolve_left (by simp [hout])

theorem Nested.precedes_of_mem_walk {n m : Node} (h : n.Nested) (hm : m ∈ n.walk) : n.Precedes m := by
  obtain ⟨hstart, hstop, -⟩ := h.of_mem_walk hm
  exact .inl (by simpa [Span.contains] using ⟨hstart, hstop⟩)

mutual

/-- A node that is met after another in a nested tree lies within it or behind it. -/
theorem Nested.pairwise_walk : (n : Node) → n.Nested → n.walk.Pairwise Precedes
  | mk k r s cs, h => by
    rw [walk]
    refine List.pairwise_cons.mpr ⟨fun m hm => ?_, Row.pairwise_walkAll cs h.row⟩
    obtain ⟨c, hc, hm⟩ := mem_walkAll.mp hm
    exact h.precedes_of_mem_walk (mem_walk_of_child hc hm)

theorem Row.pairwise_walkAll {lo hi : Nat} : (ns : List Node) → Row lo hi ns → (walkAll ns).Pairwise Precedes
  | [], _ => .nil
  | n :: ns, h => by
    obtain ⟨-, -, hn, hns⟩ := h
    rw [walkAll, List.pairwise_append]
    refine ⟨hn.pairwise_walk, hns.pairwise_walkAll, fun a ha b hb => .inr ?_⟩
    obtain ⟨m, hm, hb⟩ := mem_walkAll.mp hb
    obtain ⟨hafter, -, hm⟩ := hns.of_mem hm
    exact Nat.le_trans (hn.of_mem_walk ha).2.1 (Nat.le_trans hafter (hm.of_mem_walk hb).1)

end

end Syntax.Node

namespace Advice

open Source Syntax

variable {t : Tree} {limits : Limits} {gs : List Group} {covered : List Span} {x : Node × Nat}

/-- The elements that are long enough to count as repeated. -/
def longElements (t : Tree) (limits : Limits) : List Node :=
  t.rootD.walk.filter fun n => isElement n && decide (limits.duplicateLines ≤ lineCount t n)

/-- The elements that are long enough and have the text of a node, up to layout. -/
def copies (t : Tree) (limits : Limits) (n : Node) : List Node :=
  (longElements t limits).filter fun m => Text.compact (t.nodeText m) == Text.compact (t.nodeText n)

theorem addToGroups_eq_upsert (form : String) (n : Node) (gs : List Group) :
    addToGroups form n gs = upsert (·.form) form (fun g => { g with nodes := g.nodes ++ [n] }) ⟨form, [n]⟩ gs := by
  induction gs with
  | nil => rfl
  | cons g gs ih => rw [addToGroups, upsert, ih]

/-- The groups of elements: each text once, with the elements that have it. -/
theorem groups_eq (t : Tree) (limits : Limits) :
    groups t limits = ((longElements t limits).map fun n => Text.compact (t.nodeText n)).eraseDups.map
      fun form => ⟨form, (longElements t limits).filter fun n => Text.compact (t.nodeText n) == form⟩ := by
  simp only [groups, addToGroups_eq_upsert]
  exact foldl_upsert (fun _ _ => rfl) (fun _ _ _ => rfl) (longElements t limits)

/-- A block that is kept is the first node of a group that has others, and lies in nothing that was covered. -/
theorem exists_of_mem_keepGroups (h : x ∈ keepGroups covered gs) :
    (∃ g ∈ gs, g.nodes.head? = some x.1 ∧ g.nodes.length = x.2 ∧ 2 ≤ x.2) ∧
      ∀ s ∈ covered, s.contains x.1.span = false := by
  induction gs generalizing covered with
  | nil => cases h
  | cons g gs ih =>
    have hskip (h : x ∈ keepGroups covered gs) :
        (∃ g' ∈ g :: gs, g'.nodes.head? = some x.1 ∧ g'.nodes.length = x.2 ∧ 2 ≤ x.2) ∧
          ∀ s ∈ covered, s.contains x.1.span = false :=
      (ih h).imp_left fun ⟨g', hg', heq⟩ => ⟨g', List.mem_cons_of_mem _ hg', heq⟩
    rw [keepGroups] at h
    split at h
    case h_1 first second rest hnodes =>
      split at h
      case isTrue => exact hskip h
      case isFalse hout =>
        obtain rfl | h := List.mem_cons.mp h
        · refine ⟨⟨g, List.mem_cons_self, by rw [hnodes]; rfl, rfl, by simp [hnodes]⟩, ?_⟩
          simpa using hout
        · obtain ⟨⟨g', hg', heq⟩, hcovered⟩ := ih h
          exact ⟨⟨g', List.mem_cons_of_mem _ hg', heq⟩, fun s hs => hcovered s (List.mem_append_left _ hs)⟩
    case h_2 => exact hskip h

/-- If each group starts within the start of every group before it or behind it, then the blocks that are kept stand
apart. -/
theorem pairwise_keepGroups
    (h : gs.Pairwise fun g g' => ∀ a ∈ g.nodes.head?, ∀ b ∈ g'.nodes.head?, a.Precedes b) :
    (keepGroups covered gs).Pairwise fun x y => x.1.stop ≤ y.1.start := by
  induction gs generalizing covered with
  | nil => exact .nil
  | cons g gs ih =>
    obtain ⟨hfirst, hgs⟩ := List.pairwise_cons.mp h
    rw [keepGroups]
    split
    case h_1 first second rest hnodes =>
      split
      case isTrue => exact ih hgs
      case isFalse =>
        refine List.pairwise_cons.mpr ⟨fun y hy => ?_, ih hgs⟩
        obtain ⟨⟨g', hg', hhead, -⟩, hcovered⟩ := exists_of_mem_keepGroups hy
        have hout : first.span.contains y.1.span = false :=
          hcovered first.span (List.mem_append_right _ (by simp [hnodes]))
        exact (hfirst g' hg' first (by rw [hnodes]; rfl) y.1 hhead).stop_le hout
    case h_2 => exact ih hgs

/-- A block that is kept is counted with all its copies. -/
theorem copies_of_mem_keepGroups (h : x ∈ keepGroups [] (groups t limits)) :
    x.1 ∈ longElements t limits ∧ (copies t limits x.1).length = x.2 ∧ 2 ≤ x.2 := by
  obtain ⟨⟨g, hg, hhead, hcount⟩, -⟩ := exists_of_mem_keepGroups h
  rw [groups_eq] at hg
  obtain ⟨form, -, rfl⟩ := List.mem_map.mp hg
  obtain ⟨hmem, hform⟩ := List.mem_filter.mp (List.mem_of_mem_head? hhead)
  rw [copies, beq_iff_eq.mp hform]
  exact ⟨hmem, hcount⟩

/-- The blocks that are kept stand apart, in the order of the source. -/
theorem pairwise_keepGroups_groups (ht : t.rootD.Nested) :
    (keepGroups [] (groups t limits)).Pairwise fun x y => x.1.stop ≤ y.1.start := by
  apply pairwise_keepGroups
  rw [groups_eq, ← List.pairwise_map (f := Group.nodes)
    (R := fun ns ms => ∀ a ∈ ns.head?, ∀ b ∈ ms.head?, a.Precedes b), List.map_map]
  exact pairwise_firsts (ht.pairwise_walk.filter _)

end Advice

end SourceChange
