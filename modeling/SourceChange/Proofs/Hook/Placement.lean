import SourceChange.Proofs.Creation
import SourceChange.Proofs.Edits.Placement
import SourceChange.Proofs.Process
import SourceChange.Proofs.Syntax.Brackets

/-!
Hooks keep their order.

Among hooks that are ordered by rank, a new one goes between those of at most its rank and those of higher
ranks; a statement that is no hook goes behind all that stand before the first return. So one hook after the
other, each read back where it was put, comes to a stable sort by insertion.
-/

namespace SourceChange.Hook

open Source Syntax

/-! ### The place of one statement -/

section Place

variable {t : Tree} {f : Source.Function} {block body : Node} {statements : List Node}
  {statement indent : String} {k : Nat}

/-- The return that a list of statements comes to first. -/
def firstReturn? (statements : List Node) : Option Node := statements.find? (·.is .returnStatement)

theorem statementEdit_of_block (hbody : t.resolve f.body = .ok body)
    (hblock : body.is .statementBlock = true) :
    statementEdit t f statement k indent = .ok (
      if statementRank ≤ k then plainEdit body body.parts statement indent
      else hookEdit t body body.parts statement k indent) := by
  rw [statementEdit, hbody]
  simp only [bind, Except.bind, hblock, if_true]
  split <;> rfl

/-- What is ordered by a rank splits at any rank. -/
theorem filter_append_filter {α : Type} {rank : α → Nat} {xs : List α}
    (h : xs.Pairwise fun a b => rank a ≤ rank b) (k : Nat) :
    xs = xs.filter (rank · ≤ k) ++ xs.filter (k < rank ·) := by
  induction xs with
  | nil => rfl
  | cons x xs ih =>
    obtain ⟨hx, hxs⟩ := List.pairwise_cons.mp h
    by_cases hle : rank x ≤ k
    · have hlt : ¬ k < rank x := Nat.not_lt.mpr hle
      rw [List.filter_cons_of_pos (by simpa using hle), List.filter_cons_of_neg (by simpa using hlt),
        List.cons_append, ← ih hxs]
    · -- nothing behind `x` has a lower rank
      have hlow : (x :: xs).filter (rank · ≤ k) = [] := by
        refine List.filter_eq_nil_iff.mpr (List.forall_mem_cons.mpr ⟨by simpa using hle, fun y hy => ?_⟩)
        have := hx y hy
        simp only [decide_eq_true_eq]
        omega
      have hhigh : (x :: xs).filter (k < rank ·) = x :: xs := by
        refine List.filter_eq_self.mpr (List.forall_mem_cons.mpr ⟨by simpa using hle, fun y hy => ?_⟩)
        have := hx y hy
        simp only [decide_eq_true_eq]
        omega
      rw [hlow, hhigh, List.nil_append]

/-- The last member of a row reaches farthest. -/
theorem stop_le_of_getLast? {α : Type} (node : α → Node) {xs : List α} {x last : α}
    (hrow : xs.Pairwise fun a b => (node a).stop ≤ (node b).start)
    (hsolid : ∀ x ∈ xs, (node x).start ≤ (node x).stop) (hlast : xs.getLast? = some last) (hx : x ∈ xs) :
    (node x).stop ≤ (node last).stop := by
  have hmem := List.mem_of_getLast? hlast
  obtain ⟨init, rfl⟩ := List.getLast?_eq_some_iff.mp hlast
  obtain hx | hx := List.mem_append.mp hx
  · have hbefore := (List.pairwise_append.mp hrow).2.2 x hx last (List.mem_singleton_self _)
    exact Nat.le_trans hbefore (hsolid last hmem)
  · obtain rfl := List.mem_singleton.mp hx
    exact Nat.le_refl _

theorem pairwise_rankedHooks (t : Tree) (h : statements.Pairwise fun a b => a.stop ≤ b.start) :
    (rankedHooks t statements).Pairwise fun a b => a.1.stop ≤ b.1.start := by
  refine h.filterMap _ fun a b hab x hx y hy => ?_
  obtain ⟨-, -, rfl⟩ := Option.map_eq_some_iff.mp hx
  obtain ⟨-, -, rfl⟩ := Option.map_eq_some_iff.mp hy
  exact hab

/-- An offset between the hooks of at most a rank and those of higher ranks. -/
structure Between (hooks : List (Node × Nat)) (k o : Nat) : Prop where
  after : ∀ h ∈ hooks, h.2 ≤ k → h.1.stop ≤ o
  before : ∀ h ∈ hooks, k < h.2 → o ≤ h.1.start

/-- A hook goes between those of at most its rank and those of higher ranks, and no further than it has
to. -/
theorem hookEdit_between (block : Node) (statement indent : String) (k : Nat)
    (hrow : statements.Pairwise fun a b => a.stop ≤ b.start)
    (hsolid : ∀ s ∈ statements, s.start ≤ s.stop)
    (hranks : (rankedHooks t statements).Pairwise fun a b => a.2 ≤ b.2) :
    ∃ o text, hookEdit t block statements statement k indent = .insert o text ∧
      Between (rankedHooks t statements) k o ∧
      ∀ m, (∀ h ∈ rankedHooks t statements, h.1.stop ≤ m) → block.start < m → o ≤ m := by
  have hsolid (h : Node × Nat) (hh : h ∈ rankedHooks t statements) : h.1.start ≤ h.1.stop :=
    hsolid h.1 (mem_of_mem_rankedHooks hh)
  have hsplit := filter_append_filter hranks k
  have hrow := pairwise_rankedHooks t hrow
  unfold hookEdit
  dsimp only
  generalize rankedHooks t statements = hooks at *
  rw [hsplit] at hrow
  obtain ⟨hlow, hhigh, hcross⟩ := List.pairwise_append.mp hrow
  split
  case h_1 last r hlast =>
    have hmem : (last, r) ∈ hooks.filter (·.2 ≤ k) := List.mem_of_getLast? hlast
    refine ⟨last.stop, _, rfl, ⟨fun h hh hle => ?_, fun h hh hlt => ?_⟩, fun m hm _ => ?_⟩
    · exact stop_le_of_getLast? Prod.fst hlow (fun h hh => hsolid h (List.mem_filter.mp hh).1) hlast
        (List.mem_filter.mpr ⟨hh, decide_eq_true hle⟩)
    · exact hcross _ hmem h (List.mem_filter.mpr ⟨hh, decide_eq_true hlt⟩)
    · exact hm _ (List.mem_filter.mp hmem).1
  case h_2 hlow =>
    have hlow : hooks.filter (·.2 ≤ k) = [] := List.getLast?_eq_none_iff.mp hlow
    have hnone {h : Node × Nat} (hh : h ∈ hooks) : ¬ h.2 ≤ k := by
      simpa using List.filter_eq_nil_iff.mp hlow h hh
    split
    case h_1 next r hnext =>
      have hmem := List.mem_of_find?_eq_some hnext
      refine ⟨next.start, _, rfl, ⟨fun h hh hle => absurd hle (hnone hh), fun h hh hlt => ?_⟩, fun m hm _ => ?_⟩
      · rw [← List.head?_filter] at hnext
        obtain ⟨rest, hrest⟩ := List.head?_eq_some_iff.mp hnext
        have hh : h ∈ (next, r) :: rest := hrest ▸ List.mem_filter.mpr ⟨hh, decide_eq_true hlt⟩
        rw [hrest] at hhigh
        obtain rfl | hh := List.mem_cons.mp hh
        · exact Nat.le_refl _
        · exact Nat.le_trans (hsolid _ hmem) ((List.pairwise_cons.mp hhigh).1 h hh)
      · exact Nat.le_trans (hsolid _ hmem) (hm _ hmem)
    case h_2 hnext =>
      refine ⟨block.start + 1, _, rfl, ⟨fun h hh hle => absurd hle (hnone hh), fun h hh hlt => ?_⟩,
        fun m _ hm => hm⟩
      exact absurd (decide_eq_true hlt) (List.find?_eq_none.mp hnext h hh)

/-- A statement that is no hook goes behind those before the first return, and in front of it. -/
theorem plainEdit_before (block : Node) (statement indent : String)
    (hrow : statements.Pairwise fun a b => a.stop ≤ b.start)
    (hsolid : ∀ s ∈ statements, s.start < s.stop) :
    ∃ o text, plainEdit block statements statement indent = .insert o text ∧
      match firstReturn? statements with
      | some ret => (∀ s ∈ statements, s.stop ≤ ret.start → s.stop ≤ o) ∧ o ≤ ret.start
      | none => ∀ s ∈ statements, s.stop ≤ o := by
  have hfar {p : Node → Bool} {last : Node} (hlast : (statements.filter p).getLast? = some last)
      {s : Node} (hs : s ∈ statements) (hp : p s = true) : s.stop ≤ last.stop :=
    stop_le_of_getLast? id (hrow.filter p)
      (fun s hs => Nat.le_of_lt (hsolid s (List.mem_filter.mp hs).1)) hlast (List.mem_filter.mpr ⟨hs, hp⟩)
  unfold plainEdit
  dsimp only
  rw [← firstReturn?]
  cases hret : firstReturn? statements with
  | some ret =>
    dsimp only
    rw [List.filter_filter]
    -- what stands before the first return is none
    obtain ⟨hisReturn, before, after, hstatements, hbefore⟩ := List.find?_eq_some_iff_append.mp hret
    have hother {s : Node} (hs : s ∈ statements) (hle : s.stop ≤ ret.start) :
        (!s.is .returnStatement) = true := by
      have hlt := hsolid s hs
      have hltret := hsolid ret (List.mem_of_find?_eq_some hret)
      rw [hstatements] at hs hrow
      obtain hs | hs := List.mem_append.mp hs
      · exact hbefore s hs
      · obtain rfl | hs := List.mem_cons.mp hs
        · omega
        · have := (List.pairwise_cons.mp (List.pairwise_append.mp hrow).2.1).1 s hs
          omega
    have hpass {s : Node} (hs : s ∈ statements) (hle : s.stop ≤ ret.start) :
        (decide (s.stop ≤ ret.start) && !s.is .returnStatement) = true := by
      rw [decide_eq_true hle, hother hs hle, Bool.and_true]
    split
    case h_1 last hlast =>
      have hmem := (List.mem_filter.mp (List.mem_of_getLast? hlast)).2
      refine ⟨last.stop, _, rfl, fun s hs hle => hfar hlast hs (hpass hs hle), ?_⟩
      exact of_decide_eq_true (Bool.and_eq_true_iff.mp hmem).1
    case h_2 hlast =>
      refine ⟨ret.start, _, rfl, fun s hs hle => ?_, Nat.le_refl _⟩
      exact absurd (hpass hs hle) (List.filter_eq_nil_iff.mp (List.getLast?_eq_none_iff.mp hlast) s hs)
  | none =>
    have hpass {s : Node} (hs : s ∈ statements) : (!s.is .returnStatement) = true := by
      simpa using List.find?_eq_none.mp hret s hs
    dsimp only
    split
    case h_1 last hlast => exact ⟨last.stop, _, rfl, fun s hs => hfar hlast hs (hpass hs)⟩
    case h_2 hlast =>
      refine ⟨block.start + 1, _, rfl, fun s hs => ?_⟩
      exact absurd (hpass hs) (List.filter_eq_nil_iff.mp (List.getLast?_eq_none_iff.mp hlast) s hs)

end Place

/-! ### One hook after the other -/

/-- The statements of a body; an expression is none. -/
def statementsOf (body : Node) : List Node := if body.is .statementBlock then body.parts else []

/-- Statements as they are written, each with the hook that it calls. -/
def listing (t : Tree) (statements : List Node) : List (String × Option String) :=
  statements.map fun s => (t.nodeText s, t.hookName? s)

/-- The hook statements among statements, each with the hook that it calls. -/
def hooksAmong (statements : List (String × Option String)) : List (String × String) :=
  statements.filterMap fun x => x.2.map (x.1, ·)

/-- The rank of a hook statement. -/
def rankOf (x : String × String) : Nat := rank (some x.2)

/-- Hook statements as they were submitted, arranged by rank and otherwise left in their order. -/
structure StablyRanked (submitted placed : List (String × String)) : Prop where
  sorted : placed.Pairwise fun a b => rankOf a ≤ rankOf b
  stable : ∀ k, placed.filter (rankOf · = k) = submitted.filter (rankOf · = k)

theorem stablyRanked_nil : StablyRanked [] [] := ⟨.nil, fun _ => rfl⟩

/-- One more goes behind those of at most its rank. -/
theorem StablyRanked.insert {submitted placed : List (String × String)} (h : StablyRanked submitted placed)
    (x : String × String) :
    StablyRanked (submitted ++ [x])
      (placed.filter (rankOf · ≤ rankOf x) ++ x :: placed.filter (rankOf x < rankOf ·)) := by
  constructor
  · refine List.pairwise_append.mpr ⟨h.sorted.filter _, .cons (fun b hb => ?_) (h.sorted.filter _), ?_⟩
    · exact Nat.le_of_lt (of_decide_eq_true (List.mem_filter.mp hb).2)
    · intro a ha b hb
      have ha := of_decide_eq_true (List.mem_filter.mp ha).2
      obtain rfl | hb := List.mem_cons.mp hb
      · exact ha
      · exact Nat.le_trans ha (Nat.le_of_lt (of_decide_eq_true (List.mem_filter.mp hb).2))
  · intro k
    have hsplit := congrArg (List.filter (rankOf · = k)) (filter_append_filter h.sorted (rankOf x))
    rw [List.filter_append, List.filter_filter, List.filter_filter] at hsplit
    simp only [List.filter_append, List.filter_cons, List.filter_nil, List.filter_filter, ← h.stable,
      decide_eq_true_eq]
    rw [hsplit]
    by_cases hk : rankOf x = k
    · -- those of its own rank stand all before it
      have hnone : placed.filter (fun a => decide (rankOf a = k) && decide (rankOf x < rankOf a)) = [] := by
        refine List.filter_eq_nil_iff.mpr fun a _ => ?_
        simp only [Bool.and_eq_true, decide_eq_true_eq]
        omega
      rw [if_pos hk, if_pos hk, hnone, List.append_nil]
    · rw [if_neg hk, if_neg hk, List.append_nil]

section Step

variable {t t' : Tree} {f : Source.Function} {body body' : Node} {statements : List Node}
  {statement indent name : String} {o : Nat} {e : Edit}

theorem rank_lt_statementRank (name : String) : rank (some name) < statementRank := by
  have htable : ∀ x ∈ rankTable, x.2 < statementRank := by decide
  have hother : otherRank < statementRank := by decide
  rw [rank]
  cases hlookup : rankTable.lookup name with
  | none => exact hother
  | some k =>
    obtain ⟨before, after, heq, -⟩ := List.lookup_eq_some_iff.mp hlookup
    exact htable (name, k) (heq ▸ by simp)

theorem mem_rankedHooks {s : Node} (hs : s ∈ statements) (hname : t.hookName? s = some name) :
    (s, rank (some name)) ∈ rankedHooks t statements :=
  List.mem_filterMap.mpr ⟨s, hs, by rw [hname]; rfl⟩

theorem map_rankOf_hooksAmong (t : Tree) (statements : List Node) :
    (hooksAmong (listing t statements)).map rankOf = (rankedHooks t statements).map (·.2) := by
  rw [hooksAmong, listing, rankedHooks, List.filterMap_map, List.map_filterMap, List.map_filterMap]
  congr
  funext s
  rw [Function.comp_apply]
  cases t.hookName? s <;> rfl

theorem pairwise_rankOf_iff :
    ((hooksAmong (listing t statements)).Pairwise fun a b => rankOf a ≤ rankOf b) ↔
      (rankedHooks t statements).Pairwise fun a b => a.2 ≤ b.2 := by
  rw [← List.pairwise_map (f := rankOf) (R := (· ≤ ·)), map_rankOf_hooksAmong, List.pairwise_map]

/-- A choice of statements that goes by their hooks. -/
theorem hooksAmong_filter {p : Node → Bool} {q : String × String → Bool}
    (h : ∀ s ∈ statements, ∀ name, t.hookName? s = some name → p s = q (t.nodeText s, name)) :
    hooksAmong (listing t (statements.filter p)) = (hooksAmong (listing t statements)).filter q := by
  rw [hooksAmong, hooksAmong, listing, listing, List.filterMap_map, List.filterMap_map,
    List.filter_filterMap, List.filterMap_filter]
  refine List.filterMap_congr fun s hs => ?_
  cases hname : t.hookName? s with
  | none => simp [hname]
  | some name => simp [hname, h s hs name hname, Option.filter]

/-- What is assumed of a tree that is read after a statement was put at an offset: the body lists the
statements of before and, at that place, the new one. What was evaluated by itself is returned behind it. -/
structure Relists (t : Tree) (body : Node) (o : Nat) (x : String × Option String) (t' : Tree)
    (body' : Node) : Prop where
  block : body'.is .statementBlock = true
  inBlock : body.is .statementBlock = true →
    listing t' body'.parts =
      listing t (body.parts.filter (·.stop ≤ o)) ++ x :: listing t (body.parts.filter (o < ·.stop))
  evaluated : body.is .statementBlock = false →
    ∃ returned, listing t' body'.parts = [x, (returned, none)]

/-- A block that lists, around the new statement, what stood before and behind the offset. -/
theorem relists_of_block {x : String × Option String} {front back : List (String × Option String)}
    (hblock : body.is .statementBlock = true) (hblock' : body'.is .statementBlock = true)
    (hfront : listing t (body.parts.filter (·.stop ≤ o)) = front)
    (hback : listing t (body.parts.filter (o < ·.stop)) = back)
    (hlisting : listing t' body'.parts = front ++ x :: back) : Relists t body o x t' body' where
  block := hblock'
  inBlock _ := by rw [hlisting, hfront, hback]
  evaluated h := by cases hblock.symm.trans h

/-- A hook takes its place among the hooks of a body. -/
theorem Relists.hooksAmong_eq (h : Relists t body e.start (statement, some name) t' body')
    (ht : t.Built) (hbody : t.resolve f.body = .ok body)
    (hedit : statementEdit t f statement (rank (some name)) indent = .ok e)
    (hsorted : (hooksAmong (listing t (statementsOf body))).Pairwise fun a b => rankOf a ≤ rankOf b) :
    let placed := hooksAmong (listing t (statementsOf body))
    let x := (statement, name)
    hooksAmong (listing t' (statementsOf body')) =
      placed.filter (rankOf · ≤ rankOf x) ++ x :: placed.filter (rankOf x < rankOf ·) := by
  intro placed x
  have hbody' : statementsOf body' = body'.parts := by rw [statementsOf, if_pos h.block]
  rw [hbody']
  cases hblock : body.is .statementBlock with
  | false =>
    obtain ⟨returned, hlisting⟩ := h.evaluated hblock
    have hnone : placed = [] := by simp [placed, statementsOf, hblock, hooksAmong, listing]
    rw [hlisting, hnone]
    rfl
  | true =>
    have hmem := (Tree.resolve_eq_ok hbody).1
    have hsolid (s : Node) (hs : s ∈ body.parts) : s.start < s.stop := ht.part_start_lt_stop hmem hs
    have hparts : statementsOf body = body.parts := by rw [statementsOf, if_pos hblock]
    rw [hparts, pairwise_rankOf_iff] at hsorted
    have hrow := (ht.regular.nested.of_mem_walk hmem).2.2.pairwise_parts
    obtain ⟨o, text, ho, hbetween, -⟩ := hookEdit_between body statement indent (rank (some name)) hrow
      (fun s hs => Nat.le_of_lt (hsolid s hs)) hsorted
    rw [statementEdit_of_block hbody hblock, if_neg (Nat.not_le.mpr (rank_lt_statementRank name)), ho] at hedit
    cases hedit
    -- a hook ends before the offset exactly if its rank lets it
    have hends (s : Node) (hs : s ∈ body.parts) (n : String) (hn : t.hookName? s = some n) :
        s.stop ≤ o ↔ rank (some n) ≤ rank (some name) := by
      have hranked := mem_rankedHooks hs hn
      constructor
      · intro hstop
        refine Nat.not_lt.mp fun hlt => ?_
        have hstart : o ≤ s.start := hbetween.before _ hranked hlt
        have := hsolid s hs
        omega
      · exact hbetween.after _ hranked
    have hfront : hooksAmong (listing t (body.parts.filter (·.stop ≤ o))) =
        placed.filter (rankOf · ≤ rankOf x) := by
      rw [hooksAmong_filter (q := (rankOf · ≤ rankOf x)), ← hparts]
      exact fun s hs n hn => decide_eq_decide.mpr (hends s hs n hn)
    have hback : hooksAmong (listing t (body.parts.filter (o < ·.stop))) =
        placed.filter (rankOf x < rankOf ·) := by
      rw [hooksAmong_filter (q := (rankOf x < rankOf ·)), ← hparts]
      exact fun s hs n hn => decide_eq_decide.mpr <|
        Nat.not_le.symm.trans ((not_congr (hends s hs n hn)).trans Nat.not_le)
    rw [h.inBlock hblock, ← hfront, ← hback, hooksAmong, List.filterMap_append, List.filterMap_cons]
    rfl

end Step

section Sequence

variable {component : Option String} {s s' : Stage} {hook : Hook} {statement : String}

theorem exact_of_add_on {d : Draft} {r r' : Reader} {o : Outcome} (h : (add d hook component).on r = (.ok o, r'))
    (hexact : r.Exact) : r'.Exact := by
  have hleads := (add_yields d hook component).leads r
  rw [h] at hleads
  exact hleads.exact hexact

/-- Where a sequence of operations on a component stands: at a draft that a reader reads into a tree, in
which the component has a body. -/
structure Stage where
  draft : Draft
  reader : Reader
  tree : Tree
  function : Source.Function
  body : Node

namespace Stage

/-- The component is found in the tree of the draft. -/
structure Finds (s : Stage) (component : Option String) : Prop where
  tree : (s.draft.tree.on s.reader).1 = .ok s.tree
  function : s.tree.component component = .ok s.function
  body : s.tree.resolve s.function.body = .ok s.body

/-- The hook statements of the component. -/
def hooks (s : Stage) : List (String × String) := hooksAmong (listing s.tree (statementsOf s.body))

/-- The edit that puts the statement of a hook into the component, and the statement. -/
def placement (s : Stage) (h : Hook) : Except Failure (String × Edit) := do
  let l ← s.tree.layout s.function
  let statement := h.render l.indent l.unit
  return (statement, ← statementEdit s.tree s.function statement (rank (some h.callee)) l.indent)

/-- The operation that adds a hook leads from one stage to the next, where the component is found again
with its statement. -/
structure Adds (component : Option String) (s : Stage) (h : Hook) (statement : String) (s' : Stage) :
    Prop where
  outcome : ∃ o, (add s.draft h component).on s.reader = (.ok o, s'.reader) ∧
    s'.draft = s.draft.advance o.text
  finds : s'.Finds component
  relists : ∃ e, s.placement h = .ok (statement, e) ∧
    Relists s.tree s.body e.start (statement, h.callee) s'.tree s'.body

/-- Operations lead from one stage to another, one after the other; each hook comes with its statement. -/
inductive Runs (component : Option String) (s : Stage) : List (Hook × String) → Stage → Prop where
  | nil : Runs component s [] s
  | snoc {hs : List (Hook × String)} {s₁ s₂ : Stage} {h : Hook} {statement : String}
    (hrun : Runs component s hs s₁) (hadds : s₁.Adds component h statement s₂) :
    Runs component s (hs ++ [(h, statement)]) s₂

theorem Adds.exact (h : s.Adds component hook statement s') (hexact : s.reader.Exact) : s'.reader.Exact := by
  obtain ⟨o, ho, -⟩ := h.outcome
  exact exact_of_add_on ho hexact

/-- One operation puts its hook behind those of at most its rank and before the others. -/
theorem Adds.hooks_eq (h : s.Adds component hook statement s') (hfinds : s.Finds component)
    (hexact : s.reader.Exact) (hsorted : s.hooks.Pairwise fun a b => rankOf a ≤ rankOf b) :
    s'.hooks = s.hooks.filter (rankOf · ≤ rankOf (statement, hook.callee)) ++
      (statement, hook.callee) :: s.hooks.filter (rankOf (statement, hook.callee) < rankOf ·) := by
  obtain ⟨e, he, hrelists⟩ := h.relists
  obtain ⟨l, -, he⟩ := bind_eq_ok_iff.mp he
  obtain ⟨e', hedit, he⟩ := bind_eq_ok_iff.mp he
  cases he
  exact hrelists.hooksAmong_eq (Draft.tree_built hexact hfinds.tree) hfinds.body hedit hsorted

/-- Any number of operations leave the hooks of a component in a stable order by rank. -/
theorem Runs.stablyRanked {hs : List (Hook × String)} (h : Runs component s hs s') (hfinds : s.Finds component)
    (hexact : s.reader.Exact) (hnone : s.hooks = []) :
    s'.Finds component ∧ s'.reader.Exact ∧
      StablyRanked (hs.map fun x => (x.2, x.1.callee)) s'.hooks := by
  induction h with
  | nil => exact ⟨hfinds, hexact, hnone ▸ stablyRanked_nil⟩
  | snoc _ hadds ih =>
    obtain ⟨hfinds₁, hexact₁, hranked⟩ := ih
    refine ⟨hadds.finds, hadds.exact hexact₁, ?_⟩
    rw [hadds.hooks_eq hfinds₁ hexact₁ hranked.sorted, List.map_append]
    exact hranked.insert _

end Stage

/-- Statements keep their places in a component. A hook goes between the hooks of at most its rank and those
of higher ranks, and in front of the first return if all hooks stand there; a statement that is no hook goes
behind all that precede the first return, and in front of it. So any sequence of hooks, added to a component
without hooks and read back where they were put, leaves them ordered by rank and, within a rank, as they were
submitted. -/
theorem placed_by_rank {t : Tree} {f : Source.Function} {body : Node} (ht : t.Built)
    (hbody : t.resolve f.body = .ok body) :
    (body.is .statementBlock = true →
      ((rankedHooks t body.parts).Pairwise fun a b => a.2 ≤ b.2) →
      (∀ ret, firstReturn? body.parts = some ret → ∀ h ∈ rankedHooks t body.parts, h.1.stop ≤ ret.start) →
      ∀ (statement indent : String) (k : Nat), k < statementRank →
        ∃ o text, statementEdit t f statement k indent = .ok (.insert o text) ∧
          (∀ h ∈ rankedHooks t body.parts, h.2 ≤ k → h.1.stop ≤ o) ∧
          (∀ h ∈ rankedHooks t body.parts, k < h.2 → o ≤ h.1.start) ∧
          ∀ ret, firstReturn? body.parts = some ret → o ≤ ret.start) ∧
    (body.is .statementBlock = true →
      ∀ (statement indent : String) (k : Nat), statementRank ≤ k →
        ∃ o text, statementEdit t f statement k indent = .ok (.insert o text) ∧
          (∀ ret, firstReturn? body.parts = some ret →
            (∀ s ∈ body.parts, s.stop ≤ ret.start → s.stop ≤ o) ∧ o ≤ ret.start) ∧
          (firstReturn? body.parts = none → ∀ s ∈ body.parts, s.stop ≤ o)) ∧
    ∀ (component : Option String) (d : Draft) (r : Reader) (hs : List (Hook × String)) (s' : Stage),
      r.Exact → Stage.Finds ⟨d, r, t, f, body⟩ component → hooksAmong (listing t (statementsOf body)) = [] →
      Stage.Runs component ⟨d, r, t, f, body⟩ hs s' →
        StablyRanked (hs.map fun x => (x.2, x.1.callee)) s'.hooks := by
  have hmem := (Tree.resolve_eq_ok hbody).1
  have hrow := (ht.regular.nested.of_mem_walk hmem).2.2.pairwise_parts
  have hsolid (s : Node) (hs : s ∈ body.parts) : s.start < s.stop := ht.part_start_lt_stop hmem hs
  refine ⟨fun hblock hranks hreturn statement indent k hk => ?_, fun hblock statement indent k hk => ?_,
    fun component d r hs s' hexact hfinds hnone hrun => ?_⟩
  · obtain ⟨o, text, ho, hbetween, hclose⟩ := hookEdit_between body statement indent k hrow
      (fun s hs => Nat.le_of_lt (hsolid s hs)) hranks
    refine ⟨o, text, ?_, hbetween.after, hbetween.before, fun ret hret => ?_⟩
    · rw [statementEdit_of_block hbody hblock, if_neg (Nat.not_le.mpr hk), ho]
    · exact hclose ret.start (hreturn ret hret)
        (ht.block_start_lt hmem hblock (List.mem_of_find?_eq_some hret))
  · obtain ⟨o, text, ho, hplace⟩ := plainEdit_before body statement indent hrow hsolid
    refine ⟨o, text, ?_, fun ret hret => ?_, fun hret => ?_⟩
    · rw [statementEdit_of_block hbody hblock, if_pos hk, ho]
    · rw [hret] at hplace
      exact hplace
    · rw [hret] at hplace
      exact hplace
  · exact (hrun.stablyRanked hfinds hexact hnone).2.2

/-- Where an operation finds its component. -/
def Stage.find? (d : Draft) (r : Reader) (component : Option String) : Option Stage := do
  let t ← (d.tree.on r).1.toOption
  let f ← (t.component component).toOption
  let body ← (t.resolve f.body).toOption
  return ⟨d, r, t, f, body⟩

theorem Stage.finds_of_find? {d : Draft} {r : Reader} (hs : Stage.find? d r component = some s) :
    s.draft = d ∧ s.reader = r ∧ s.Finds component := by
  obtain ⟨t, ht, hs⟩ := Option.bind_eq_some_iff.mp hs
  obtain ⟨f, hf, hs⟩ := Option.bind_eq_some_iff.mp hs
  obtain ⟨body, hbody, hs⟩ := Option.bind_eq_some_iff.mp hs
  cases hs
  exact ⟨rfl, rfl, toOption_eq_some_iff.mp ht, toOption_eq_some_iff.mp hf, toOption_eq_some_iff.mp hbody⟩

/-- A hook whose function is imported already is added by its edits alone. -/
theorem add_on_of_imported {d : Draft} {r r₁ r₂ : Reader} {t t₁ : Tree} {f : Source.Function} {es : List Edit}
    {text : String} (ht : d.tree.on r = (.ok t, r₁)) (hf : t.component component = .ok f)
    (hes : edits t f hook = .ok es) (htext : t.edited es = .ok text)
    (ht₁ : (d.advance text).tree.on r₁ = (.ok t₁, r₂))
    (himported : t₁.imports.any (·.locals.contains hook.callee) = true) :
    ∃ o, (add d hook component).on r = (.ok o, r₂) ∧ o.text = text := by
  have himport : (ensureImport (d.advance text) hook.callee).on r₁ = (.ok text, r₂) := by
    rw [ensureImport, Reading.on_bind, ht₁]
    dsimp only
    rw [if_pos himported]
    rfl
  rw [add, Reading.on_bind, ht]
  simp only [Reading.on_bind, Reading.on_liftM, hf, hes, htext, himport]
  exact ⟨_, rfl, rfl⟩

/-- The same without a cache. The import is looked up in the tree of the new text, under whatever version. -/
theorem Stage.add_on_of_edited {d : Draft} {r : Reader} {version : Nat} {es : List Edit} (text : String)
    {t' : Tree} (hs : Stage.find? d r component = some s) (hr : r.cache = none)
    (hes : edits s.tree s.function hook = .ok es) (htext : s.tree.edited es = .ok text)
    (ht' : t' = Tree.build version d.language text.toList) (hclean' : t'.hasErrors = false)
    (himported : t'.imports.any (·.locals.contains hook.callee) = true) :
    ∃ o, (add d hook component).on r = (.ok o, ⟨text :: d.text :: r.texts, none⟩) ∧ o.text = text := by
  obtain ⟨rfl, rfl, hfinds⟩ := Stage.finds_of_find? hs
  obtain ⟨hbuild, hclean⟩ := Draft.tree_eq_of_uncached hr hfinds.tree
  have ht := Draft.tree_on_of_uncached hr (hbuild ▸ hclean)
  rw [← hbuild] at ht
  let r₁ : Reader := ⟨s.draft.text :: s.reader.texts, none⟩
  have hmiddle : Tree.build r₁.version s.draft.language text.toList = t'.withVersion r₁.version := by
    rw [ht', Tree.build_withVersion]
  have hread : (s.draft.advance text).tree.on r₁ =
      (.ok (t'.withVersion r₁.version), ⟨text :: s.draft.text :: s.reader.texts, none⟩) := by
    rw [← hmiddle]
    exact Draft.tree_on_of_uncached rfl ((congrArg Tree.hasErrors hmiddle).trans hclean')
  have himported' : (t'.withVersion r₁.version).imports.any (·.locals.contains hook.callee) = true := by
    rw [Tree.imports_withVersion, List.any_map]
    exact himported
  exact add_on_of_imported ht hfinds.function hes htext hread himported'

theorem Stage.tree_text {d : Draft} {r : Reader} (hs : Stage.find? d r component = some s)
    (hr : r.cache = none) : s.tree.text = d.text := by
  obtain ⟨rfl, rfl, hfinds⟩ := Stage.finds_of_find? hs
  rw [(Draft.tree_eq_of_uncached hr hfinds.tree).1, Tree.text, Tree.build, String.ofList_toList]

/-- The same for an insertion. -/
theorem Stage.add_on_of_insertion {d : Draft} {r : Reader} (front rest : List Char) {o version : Nat}
    {insertion : String} (text : String) {t' : Tree} (hs : Stage.find? d r component = some s)
    (hr : r.cache = none) (hd : d.text = String.ofList (front ++ rest)) (ho : byteSize front = o)
    (hes : edits s.tree s.function hook = .ok [.insert o insertion])
    (htext : String.ofList (front ++ insertion.toList ++ rest) = text)
    (ht' : t' = Tree.build version d.language text.toList) (hclean' : t'.hasErrors = false)
    (himported : t'.imports.any (·.locals.contains hook.callee) = true) :
    ∃ o, (add d hook component).on r = (.ok o, ⟨text :: d.text :: r.texts, none⟩) ∧ o.text = text := by
  have hedited : s.tree.edited [.insert o insertion] = .ok text := by
    rw [Tree.edited, Stage.tree_text hs hr, hd, ← ho, Edit.applyAll_insert, htext]
  exact Stage.add_on_of_edited text hs hr hes hedited ht' hclean' himported

/-- The same for two insertions, of which the later one is given first. -/
theorem Stage.add_on_of_insertions {d : Draft} {r : Reader} (front mid rest : List Char) {o o' version : Nat}
    {insertion insertion' : String} (text : String) {t' : Tree} (hs : Stage.find? d r component = some s)
    (hr : r.cache = none) (hd : d.text = String.ofList (front ++ mid ++ rest)) (hmid : mid ≠ [])
    (ho : byteSize front = o) (ho' : byteSize (front ++ mid) = o')
    (hes : edits s.tree s.function hook = .ok [.insert o' insertion', .insert o insertion])
    (htext : String.ofList (front ++ insertion.toList ++ (mid ++ insertion'.toList ++ rest)) = text)
    (ht' : t' = Tree.build version d.language text.toList) (hclean' : t'.hasErrors = false)
    (himported : t'.imports.any (·.locals.contains hook.callee) = true) :
    ∃ o, (add d hook component).on r = (.ok o, ⟨text :: d.text :: r.texts, none⟩) ∧ o.text = text := by
  have hedited : s.tree.edited [.insert o' insertion', .insert o insertion] = .ok text := by
    rw [Tree.edited, Stage.tree_text hs hr, hd, ← ho, ← ho', Edit.applyAll_insert_insert front mid rest hmid, htext]
  exact Stage.add_on_of_edited text hs hr hes hedited ht' hclean' himported

/-- A hook that is inserted between two parts of a block, or at one of its ends, is a step. -/
theorem Stage.adds_of_block {d : Draft} {r : Reader} {before behind : List (String × Option String)}
    (front rest : List Char) {o : Nat} {insertion : String} (text : String)
    (hs : Stage.find? d r component = some s) (hr : r.cache = none) (hd : d.text = String.ofList (front ++ rest))
    (ho : byteSize front = o) (hplace : (s.placement hook).toOption = some (statement, .insert o insertion))
    (hes : (edits s.tree s.function hook).toOption = some [.insert o insertion])
    (htext : String.ofList (front ++ insertion.toList ++ rest) = text)
    (hs' : Stage.find? (d.advance text) ⟨text :: d.text :: r.texts, none⟩ component = some s')
    (himported : s'.tree.imports.any (·.locals.contains hook.callee) = true)
    (hblock : s.body.is .statementBlock = true) (hblock' : s'.body.is .statementBlock = true)
    (hbefore : listing s.tree (s.body.parts.filter (·.stop ≤ o)) = before)
    (hbehind : listing s.tree (s.body.parts.filter (o < ·.stop)) = behind)
    (hlisting : listing s'.tree s'.body.parts = before ++ (statement, some hook.callee) :: behind) :
    s.Adds component hook statement s' := by
  obtain ⟨hdraft', hreader', hfinds'⟩ := Stage.finds_of_find? hs'
  obtain ⟨hbuild', hclean'⟩ := Draft.tree_eq_of_uncached (hreader' ▸ rfl) hfinds'.tree
  rw [hdraft'] at hbuild'
  obtain ⟨outcome, hadd, rfl⟩ := Stage.add_on_of_insertion front rest text hs hr hd ho (toOption_eq_some_iff.mp hes)
    htext hbuild' hclean' himported
  obtain ⟨rfl, rfl, -⟩ := Stage.finds_of_find? hs
  have hrelists := relists_of_block hblock hblock' hbefore hbehind hlisting
  exact ⟨⟨outcome, by rw [hadd, hreader'], hdraft'⟩, hfinds', _, toOption_eq_some_iff.mp hplace, hrelists⟩

theorem Stage.exists_find? {d : Draft} {r : Reader} {P : Stage → Prop} [DecidablePred P]
    (h : (Stage.find? d r component).any (fun s => decide (P s)) = true) :
    ∃ s, Stage.find? d r component = some s ∧ P s := by
  obtain ⟨s, hs, h⟩ := (Option.any_eq_true ..).mp h
  exact ⟨s, hs, of_decide_eq_true h⟩

/-- A state goes before a reference that was added before it. -/
theorem placed_by_rank_state_before_ref :
    let text := "import \x7b useRef, useState \x7d from 'react';\nfunction App() \x7b\n  return 1;\n\x7d"
    let result := "import \x7b useRef, useState \x7d from 'react';\nfunction App() \x7b\n" ++
      "  const [x, setX] = useState(0);\n  const a = useRef(null);\n  return 1;\n\x7d"
    let reference := (Hook.ref "a" "null", "const a = useRef(null);")
    let state := (Hook.state "x" "setX" "0" none, "const [x, setX] = useState(0);")
    ∃ s₀ s₁ s₂ : Stage, s₀.draft.text = text ∧ s₂.draft.text = result ∧
      (∃ o added, statementEdit s₁.tree s₁.function state.2 0 "  " = .ok (.insert o added) ∧
        (∀ h ∈ rankedHooks s₁.tree s₁.body.parts, 0 < h.2 → o ≤ h.1.start) ∧
        ∀ ret, firstReturn? s₁.body.parts = some ret → o ≤ ret.start) ∧
      (∃ o added, statementEdit s₁.tree s₁.function "f();" statementRank "  " = .ok (.insert o added) ∧
        ∀ ret, firstReturn? s₁.body.parts = some ret →
          (∀ s ∈ s₁.body.parts, s.stop ≤ ret.start → s.stop ≤ o) ∧ o ≤ ret.start) ∧
      Stage.Runs none s₀ [reference, state] s₂ ∧
      StablyRanked [(reference.2, "useRef"), (state.2, "useState")] s₂.hooks := by
  intro text result reference state
  let middle := "import \x7b useRef, useState \x7d from 'react';\nfunction App() \x7b\n" ++
    "  const a = useRef(null);\n  return 1;\n\x7d"
  have h₀ : (Stage.find? ⟨"a.tsx", .tsx, text⟩ .plain none).any (fun s => decide (
      s.hooks = [] ∧ s.body.is .statementBlock = true ∧
      (s.placement reference.1).toOption = some (reference.2, .insert 58 "\n  const a = useRef(null);") ∧
      (edits s.tree s.function reference.1).toOption = some [.insert 58 "\n  const a = useRef(null);"] ∧
      listing s.tree (s.body.parts.filter (·.stop ≤ 58)) = [] ∧
      listing s.tree (s.body.parts.filter (58 < ·.stop)) = [("return 1;", none)])) = true := by
    decide +kernel
  have h₁ : (Stage.find? ⟨"a.tsx", .tsx, middle⟩ ⟨[middle, text], none⟩ none).any (fun s => decide (
      s.body.is .statementBlock = true ∧
      (s.placement state.1).toOption = some (state.2, .insert 61 "const [x, setX] = useState(0);\n  ") ∧
      (edits s.tree s.function state.1).toOption = some [.insert 61 "const [x, setX] = useState(0);\n  "] ∧
      listing s.tree s.body.parts = [(reference.2, some "useRef"), ("return 1;", none)] ∧
      listing s.tree (s.body.parts.filter (·.stop ≤ 61)) = [] ∧
      listing s.tree (s.body.parts.filter (61 < ·.stop)) = [(reference.2, some "useRef"), ("return 1;", none)] ∧
      (rankedHooks s.tree s.body.parts).Pairwise (fun a b => a.2 ≤ b.2) ∧
      (∀ ret ∈ firstReturn? s.body.parts, ∀ h ∈ rankedHooks s.tree s.body.parts, h.1.stop ≤ ret.start) ∧
      s.tree.imports.any (·.locals.contains "useRef") = true)) = true := by
    decide +kernel
  have h₂ : (Stage.find? ⟨"a.tsx", .tsx, result⟩ ⟨[result, middle, middle, text], none⟩ none).any
      (fun s => decide (s.body.is .statementBlock = true ∧ listing s.tree s.body.parts =
        [(state.2, some "useState"), (reference.2, some "useRef"), ("return 1;", none)] ∧
        s.tree.imports.any (·.locals.contains "useState") = true)) = true := by
    decide +kernel
  obtain ⟨s₀, hs₀, hnone, hblock₀, hplace₀, hes₀, hbefore₀, hbehind₀⟩ := Stage.exists_find? h₀
  obtain ⟨s₁, hs₁, hblock₁, hplace₁, hes₁, hlisting₁, hbefore₁, hbehind₁, hranks, hreturn, himported₁⟩ :=
    Stage.exists_find? h₁
  obtain ⟨s₂, hs₂, hblock₂, hlisting₂, himported₂⟩ := Stage.exists_find? h₂
  have hadds₀ : s₀.Adds none reference.1 reference.2 s₁ :=
    Stage.adds_of_block (text.toList.take 58) (text.toList.drop 58) middle hs₀ rfl (by decide +kernel)
      (by decide +kernel) hplace₀ hes₀ (by decide +kernel) hs₁ himported₁ hblock₀ hblock₁ hbefore₀ hbehind₀ hlisting₁
  have hadds₁ : s₁.Adds none state.1 state.2 s₂ :=
    Stage.adds_of_block (middle.toList.take 61) (middle.toList.drop 61) result hs₁ rfl (by decide +kernel)
      (by decide +kernel) hplace₁ hes₁ (by decide +kernel) hs₂ himported₂ hblock₁ hblock₂ hbefore₁ hbehind₁ hlisting₂
  have hrun : Stage.Runs none s₀ [reference, state] s₂ := .snoc (.snoc .nil hadds₀) hadds₁
  obtain ⟨hdraft₀, hreader₀, hfinds₀⟩ := Stage.finds_of_find? hs₀
  obtain ⟨hdraft₂, -, -⟩ := Stage.finds_of_find? hs₂
  have hexact : s₀.reader.Exact := hreader₀ ▸ Reader.exact_plain
  obtain ⟨hhook, hplain, -⟩ :=
    placed_by_rank (Draft.tree_built (hadds₀.exact hexact) hadds₀.finds.tree) hadds₀.finds.body
  obtain ⟨o, added, ho, -, hbefore, hret⟩ := hhook hblock₁ hranks hreturn state.2 "  " 0 (by decide)
  obtain ⟨o', added', ho', hplace, -⟩ := hplain hblock₁ "f();" "  " statementRank (Nat.le_refl _)
  obtain ⟨-, -, hsequence⟩ := placed_by_rank (Draft.tree_built hexact hfinds₀.tree) hfinds₀.body
  refine ⟨s₀, s₁, s₂, by rw [hdraft₀], by rw [hdraft₂], ⟨o, added, ho, hbefore, hret⟩,
    ⟨o', added', ho', hplace⟩, hrun, ?_⟩
  exact hsequence none s₀.draft s₀.reader _ s₂ hexact hfinds₀ hnone hrun

end Sequence

end SourceChange.Hook
