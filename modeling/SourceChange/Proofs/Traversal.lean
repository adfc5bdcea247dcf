import SourceChange.Advice.Candidate
import SourceChange.Proofs.Syntax.Spans
import SourceChange.Source.Locate

/-!
The order in which trees are visited.

The position of a node is the way down to it, the number of the child at each level. Positions are compared from the
top: a node comes before what is below it, and what is below a child before what is below later ones. A sweep keeps a
stack of nodes that are still to be visited. It meets every position once and in this order, also when it leaves out
what is below certain nodes, because what it has found and what the stack still holds are always the same list.
-/

namespace SourceChange

namespace Syntax

namespace Node

variable {n m c : Node} {q q' : List Nat} {j : Nat} {p shows closes : Node → Bool}

/-- The node at a position. -/
def at? (n : Node) : List Nat → Option Node
  | [] => some n
  | j :: q => n.children[j]?.bind fun c => c.at? q

@[simp] theorem at?_nil (n : Node) : n.at? [] = some n := rfl

theorem at?_cons_eq_some_iff : n.at? (j :: q) = some m ↔ ∃ c, n.children[j]? = some c ∧ c.at? q = some m :=
  Option.bind_eq_some_iff

/-- A position comes before another one: where they part, it is further to the left, or it ends there. -/
def Before : List Nat → List Nat → Prop := List.Lex (· < ·)

theorem Before.asymm (h : Before q q') : ¬ Before q' q := List.lt_asymm h

/-- Nothing comes before what is above it. -/
theorem Before.not_isPrefix (h : Before q q') : ¬ q' <+: q := by
  induction h with
  | nil => simp
  | rel hlt => exact fun habove => absurd (List.cons_prefix_cons.mp habove).1 (Nat.ne_of_gt hlt)
  | cons _ ih => exact fun habove => ih (List.cons_prefix_cons.mp habove).2

/-- Nodes stand at exactly the positions of which `P` holds, each once and in document order. -/
def ListsAt (P : List Nat → Node → Prop) (ns : List Node) : Prop :=
  ∃ xs : List (List Nat × Node), xs.map Prod.snd = ns ∧ xs.Pairwise (fun x y => Before x.1 y.1) ∧
    ∀ q m, (q, m) ∈ xs ↔ P q m

theorem ListsAt.congr {P Q : List Nat → Node → Prop} {ns : List Node} (h : ListsAt P ns)
    (hPQ : ∀ q m, P q m ↔ Q q m) : ListsAt Q ns := by
  obtain ⟨xs, hns, hsorted, hmem⟩ := h
  exact ⟨xs, hns, hsorted, fun q m => (hmem q m).trans (hPQ q m)⟩

theorem ListsAt.mem_iff {P : List Nat → Node → Prop} {ns : List Node} (h : ListsAt P ns) :
    m ∈ ns ↔ ∃ q, P q m := by
  obtain ⟨xs, rfl, -, hmem⟩ := h
  simp [hmem]

/-- The first of several nodes that satisfy `p` stands at the first of their positions. -/
theorem ListsAt.find?_eq_some_iff {P : List Nat → Node → Prop} {ns : List Node} (h : ListsAt P ns)
    (hP : ∀ q m m', P q m → P q m' → m = m') :
    ns.find? p = some m ↔ ∃ q, P q m ∧ p m = true ∧ ∀ q' m', P q' m' → p m' = true → q = q' ∨ Before q q' := by
  obtain ⟨xs, rfl, hsorted, hmem⟩ := h
  have hfound {m : Node} (hm : (xs.map Prod.snd).find? p = some m) :
      ∃ q, P q m ∧ p m = true ∧ ∀ q' m', P q' m' → p m' = true → q = q' ∨ Before q q' := by
    rw [List.find?_map] at hm
    obtain ⟨⟨q, m⟩, hx, rfl⟩ := Option.map_eq_some_iff.mp hm
    obtain ⟨hpm, before, after, rfl, hbefore⟩ := List.find?_eq_some_iff_append.mp hx
    refine ⟨q, (hmem q m).mp (by simp), hpm, fun q' m' hm' hpm' => ?_⟩
    obtain hin | hin := List.mem_append.mp ((hmem q' m').mpr hm')
    · simpa [hpm'] using hbefore (q', m') hin
    · obtain heq | hin := List.mem_cons.mp hin
      · cases heq
        exact .inl rfl
      · have hafter := (List.pairwise_append.mp hsorted).2.1
        exact .inr ((List.pairwise_cons.mp hafter).1 (q', m') hin)
  refine ⟨hfound, fun ⟨q, hm, hpm, hfirst⟩ => ?_⟩
  cases hfind : (xs.map Prod.snd).find? p with
  | none =>
    have hin : m ∈ xs.map Prod.snd := List.mem_map_of_mem ((hmem q m).mpr hm)
    exact absurd hpm (List.find?_eq_none.mp hfind m hin)
  | some m' =>
    obtain ⟨q', hm', hpm', hfirst'⟩ := hfound hfind
    obtain rfl | hbefore := hfirst q' m' hm' hpm'
    · rw [hP q m m' hm hm']
    · obtain rfl | hbefore' := hfirst' q m hm hpm
      · rw [hP q' m m' hm hm']
      · exact absurd hbefore' hbefore.asymm

/-- No node above a position is closed. -/
def Open (closes : Node → Bool) (n : Node) (q : List Nat) : Prop :=
  ∀ q' m, q' <+: q → q' ≠ q → n.at? q' = some m → closes m = false

theorem open_nil (closes : Node → Bool) (n : Node) : Open closes n [] :=
  fun _ _ habove hne => absurd (List.prefix_nil.mp habove) hne

theorem open_cons_iff (hc : n.children[j]? = some c) :
    Open closes n (j :: q) ↔ closes n = false ∧ Open closes c q := by
  constructor
  · intro h
    refine ⟨h [] n (List.nil_prefix) (List.cons_ne_nil j q).symm rfl, fun q' m habove hne hm => ?_⟩
    exact h (j :: q') m (List.cons_prefix_cons.mpr ⟨rfl, habove⟩) (fun heq => hne (List.cons.inj heq).2)
      (at?_cons_eq_some_iff.mpr ⟨c, hc, hm⟩)
  · rintro ⟨hn, hbelow⟩ q' m habove hne hm
    cases q' with
    | nil =>
      cases hm
      exact hn
    | cons i q' =>
      obtain ⟨rfl, hrest⟩ := List.cons_prefix_cons.mp habove
      obtain ⟨d, hd, hm⟩ := at?_cons_eq_some_iff.mp hm
      cases hc.symm.trans hd
      exact hbelow q' m hrest (fun heq => hne (congrArg (i :: ·) heq)) hm

mutual

/-- The nodes of a tree that are shown, without those below closed ones. -/
def swept (shows closes : Node → Bool) : Node → List Node
  | mk k r s cs =>
    (if shows (mk k r s cs) then [mk k r s cs] else []) ++
      if closes (mk k r s cs) then [] else sweptAll shows closes cs

/-- The nodes of several trees that are shown, one tree after the other. -/
def sweptAll (shows closes : Node → Bool) : List Node → List Node
  | [] => []
  | n :: ns => swept shows closes n ++ sweptAll shows closes ns

end

theorem swept_eq (shows closes : Node → Bool) (n : Node) : swept shows closes n =
    (if shows n then [n] else []) ++ if closes n then [] else sweptAll shows closes n.children := by
  cases n
  rw [swept]
  rfl

theorem sweptAll_append (ns ms : List Node) :
    sweptAll shows closes (ns ++ ms) = sweptAll shows closes ns ++ sweptAll shows closes ms := by
  induction ns with
  | nil => rfl
  | cons n ns ih => rw [List.cons_append, sweptAll, sweptAll, ih, List.append_assoc]

mutual

theorem swept_all : (n : Node) → swept (fun _ => true) (fun _ => false) n = n.walk
  | mk k r s cs => by
    rw [swept, walk, sweptAll_all cs]
    rfl

theorem sweptAll_all : (ns : List Node) → sweptAll (fun _ => true) (fun _ => false) ns = walkAll ns
  | [] => rfl
  | n :: ns => by rw [sweptAll, walkAll, swept_all n, sweptAll_all ns]

end

mutual

theorem swept_self (p : Node → Bool) : (n : Node) → swept p p n = n.outermost p
  | mk k r s cs => by
    rw [swept, outermost, sweptAll_self p cs]
    split <;> rfl

theorem sweptAll_self (p : Node → Bool) : (ns : List Node) → sweptAll p p ns = outermostAll p ns
  | [] => rfl
  | n :: ns => by rw [sweptAll, outermostAll, swept_self p n, sweptAll_self p ns]

end

/-- A sweep shows the node at a position: it is one to be shown, and no node above it is closed. -/
def ShownAt (shows closes : Node → Bool) (n : Node) (q : List Nat) (m : Node) : Prop :=
  n.at? q = some m ∧ shows m = true ∧ Open closes n q

theorem shownAt_nil_iff : ShownAt shows closes n [] m ↔ m = n ∧ shows n = true := by
  constructor
  · rintro ⟨hm, hshows, -⟩
    cases hm
    exact ⟨rfl, hshows⟩
  · rintro ⟨rfl, hshows⟩
    exact ⟨rfl, hshows, open_nil closes m⟩

theorem shownAt_cons_iff : ShownAt shows closes n (j :: q) m ↔
    closes n = false ∧ ∃ c, n.children[j]? = some c ∧ ShownAt shows closes c q m := by
  constructor
  · rintro ⟨hm, hshows, hopen⟩
    obtain ⟨c, hc, hm⟩ := at?_cons_eq_some_iff.mp hm
    obtain ⟨hn, hbelow⟩ := (open_cons_iff hc).mp hopen
    exact ⟨hn, c, hc, hm, hshows, hbelow⟩
  · rintro ⟨hn, c, hc, hm, hshows, hopen⟩
    exact ⟨at?_cons_eq_some_iff.mpr ⟨c, hc, hm⟩, hshows, (open_cons_iff hc).mpr ⟨hn, hopen⟩⟩

mutual

/-- What a sweep shows are the nodes that are to be shown and have no closed node above them. -/
theorem listsAt_swept (shows closes : Node → Bool) : (n : Node) →
    ListsAt (ShownAt shows closes n) (swept shows closes n)
  | mk k r s cs => by
    obtain ⟨xs, hxs, hsorted, hmem⟩ := listsAt_sweptAll shows closes 0 cs
    have hbelow (j : Nat) (q : List Nat) (m : Node) :
        (j :: q, m) ∈ xs ↔ ∃ c, cs[j]? = some c ∧ ShownAt shows closes c q m := by
      rw [hmem]
      constructor
      · rintro ⟨j', q', c, heq, hc, hshown⟩
        rw [Nat.zero_add] at heq
        obtain ⟨rfl, rfl⟩ := List.cons.inj heq
        exact ⟨c, hc, hshown⟩
      · rintro ⟨c, hc, hshown⟩
        exact ⟨j, q, c, by rw [Nat.zero_add], hc, hshown⟩
    have hself (m : Node) : ([], m) ∉ xs := fun h => by
      obtain ⟨j, q', c, heq, -⟩ := (hmem [] m).mp h
      cases heq
    refine ⟨(if shows (mk k r s cs) then [([], mk k r s cs)] else []) ++ if closes (mk k r s cs) then [] else xs,
      ?_, ?_, fun q m => ?_⟩
    · rw [swept, ← hxs, List.map_append]
      split <;> split <;> rfl
    · rw [List.pairwise_append]
      refine ⟨by split <;> simp, by split <;> simp [hsorted], fun x hx y hy => ?_⟩
      obtain ⟨-, hx⟩ : shows (mk k r s cs) = true ∧ x = ([], mk k r s cs) := by simpa using hx
      obtain ⟨-, hy⟩ : closes (mk k r s cs) = false ∧ y ∈ xs := by simpa using hy
      obtain ⟨_ | ⟨j, q⟩, m⟩ := y
      · exact absurd hy (hself m)
      · rw [hx]
        exact .nil
    · cases q with
      | nil =>
        rw [shownAt_nil_iff]
        simp [hself, and_comm]
      | cons j q =>
        rw [shownAt_cons_iff]
        simp [hbelow, children]

/-- The trees of a row are numbered, and what is shown of one comes before what is shown of later ones. -/
theorem listsAt_sweptAll (shows closes : Node → Bool) (i : Nat) : (ns : List Node) →
    ListsAt (fun q m => ∃ j q' c, q = (i + j) :: q' ∧ ns[j]? = some c ∧ ShownAt shows closes c q' m)
      (sweptAll shows closes ns)
  | [] => ⟨[], rfl, .nil, by simp⟩
  | n :: ns => by
    obtain ⟨xs, hxs, hsorted, hmem⟩ := listsAt_swept shows closes n
    obtain ⟨ys, hys, hysorted, hymem⟩ := listsAt_sweptAll shows closes (i + 1) ns
    refine ⟨xs.map (fun x => (i :: x.1, x.2)) ++ ys, ?_, ?_, fun q m => ?_⟩
    · rw [sweptAll, ← hxs, ← hys, List.map_append, List.map_map]
      rfl
    · rw [List.pairwise_append, List.pairwise_map]
      refine ⟨hsorted.imp fun hbefore => .cons hbefore, hysorted, fun x hx y hy => ?_⟩
      obtain ⟨x, -, rfl⟩ := List.mem_map.mp hx
      obtain ⟨j, q', c, hq, -⟩ := (hymem y.1 y.2).mp hy
      rw [hq]
      exact .rel (by omega)
    · rw [List.mem_append, List.mem_map, hymem]
      constructor
      · rintro (⟨⟨q', m⟩, hx, heq⟩ | ⟨j, q', c, rfl, hc, hshown⟩)
        · cases heq
          exact ⟨0, q', n, rfl, rfl, (hmem q' m).mp hx⟩
        · exact ⟨j + 1, q', c, by rw [Nat.add_right_comm, Nat.add_assoc], hc, hshown⟩
      · rintro ⟨j, q', c, rfl, hc, hshown⟩
        cases j with
        | zero =>
          cases hc
          exact .inl ⟨(q', m), (hmem q' m).mpr hshown, rfl⟩
        | succ j => exact .inr ⟨j, q', c, by rw [Nat.add_right_comm, Nat.add_assoc], hc, hshown⟩

end

mutual

theorem outermost_sublist (p : Node → Bool) : (n : Node) → (n.outermost p).Sublist n.walk
  | mk k r s cs => by
    rw [outermost, walk]
    split
    · exact (List.nil_sublist _).cons_cons _
    · exact (outermostAll_sublist p cs).cons _

theorem outermostAll_sublist (p : Node → Bool) : (ns : List Node) → (outermostAll p ns).Sublist (walkAll ns)
  | [] => .slnil
  | n :: ns => (outermost_sublist p n).append (outermostAll_sublist p ns)

end

/-- A walk meets every position of a tree. -/
theorem listsAt_walk (n : Node) : ListsAt (fun q m => n.at? q = some m) n.walk := by
  rw [← swept_all n]
  refine (listsAt_swept (fun _ => true) (fun _ => false) n).congr fun q m => ?_
  simp [ShownAt, Open]

theorem listsAt_outermost (p : Node → Bool) (n : Node) : ListsAt (ShownAt p p n) (n.outermost p) :=
  swept_self p n ▸ listsAt_swept p p n

/-- No outermost node lies below another one. -/
theorem ShownAt.eq_of_prefix (h : ShownAt p p n q m) (h' : ShownAt p p n q' m') (habove : q' <+: q) : q' = q := by
  refine Classical.byContradiction fun hne => ?_
  have hclosed : p m' = false := h.2.2 q' m' habove hne h'.1
  exact absurd h'.2.1 (Bool.eq_false_iff.mp hclosed)

/-- On the way down to a node that satisfies `p` lies an outermost one, at the latest the node itself. -/
theorem exists_shownAt_prefix (hm : n.at? q = some m) (hp : p m = true) :
    ∃ q' m', q' <+: q ∧ ShownAt p p n q' m' := by
  induction q generalizing n with
  | nil =>
    cases hm
    exact ⟨[], m, List.prefix_rfl, shownAt_nil_iff.mpr ⟨rfl, hp⟩⟩
  | cons j q ih =>
    obtain ⟨c, hc, hm⟩ := at?_cons_eq_some_iff.mp hm
    cases hn : p n with
    | true => exact ⟨[], n, List.nil_prefix, shownAt_nil_iff.mpr ⟨rfl, hn⟩⟩
    | false =>
      obtain ⟨q', m', habove, hshown⟩ := ih hm
      exact ⟨j :: q', m', List.cons_prefix_cons.mpr ⟨rfl, habove⟩, shownAt_cons_iff.mpr ⟨hn, c, hc, hshown⟩⟩

theorem walk_eq (n : Node) : n.walk = n :: walkAll n.children := by
  cases n
  rw [walk]
  rfl

theorem walkAll_append (ns ms : List Node) : walkAll (ns ++ ms) = walkAll ns ++ walkAll ms := by
  rw [← sweptAll_all, ← sweptAll_all, ← sweptAll_all, sweptAll_append]

end Node

/-- A sweep on its way: the stack of the nodes still to be visited, the next one last, and the nodes found so far. -/
structure Sweep where
  pending : List Node
  found : List Node

namespace Sweep

variable {shows closes : Node → Bool} {s s' : Sweep}

/-- A sweep that has a tree before it. -/
def start (n : Node) : Sweep := ⟨[n], []⟩

/-- Takes the last node from the stack. Its children take its place in reverse order, unless the node is closed. -/
def next? (shows closes : Node → Bool) (s : Sweep) : Option Sweep :=
  s.pending.getLast?.map fun n =>
    { pending := s.pending.dropLast ++ if closes n then [] else n.children.reverse
      found := s.found ++ if shows n then [n] else [] }

theorem next?_eq_none (h : s.next? shows closes = none) : s.pending = [] :=
  List.getLast?_eq_none_iff.mp (Option.map_eq_none_iff.mp h)

theorem next?_cases (h : s.next? shows closes = some s') : ∃ n rest, s.pending.reverse = n :: rest ∧
    s'.pending.reverse = (if closes n then [] else n.children) ++ rest ∧
    s'.found = s.found ++ if shows n then [n] else [] := by
  obtain ⟨n, hn, rfl⟩ := Option.map_eq_some_iff.mp h
  obtain ⟨front, hfront⟩ := List.getLast?_eq_some_iff.mp hn
  refine ⟨n, front.reverse, by rw [hfront, List.reverse_concat], ?_, rfl⟩
  rw [hfront, List.dropLast_concat, List.reverse_append, apply_ite List.reverse, List.reverse_nil,
    List.reverse_reverse]

/-- The number of visits that are still to come if nothing is left out. -/
def visits (s : Sweep) : Nat := (Node.walkAll s.pending.reverse).length

theorem visits_next?_lt (h : s.next? shows closes = some s') : s'.visits < s.visits := by
  obtain ⟨n, rest, hpending, hpending', -⟩ := next?_cases h
  have hbelow : (Node.walkAll (if closes n then [] else n.children)).length ≤ (Node.walkAll n.children).length := by
    split
    · exact Nat.zero_le _
    · exact Nat.le_refl _
  rw [visits, visits, hpending, hpending', Node.walkAll_append, Node.walkAll, Node.walk_eq, List.length_append,
    List.length_append, List.length_cons]
  omega

/-- The nodes a sweep has found in the end. -/
def run (shows closes : Node → Bool) (s : Sweep) : List Node :=
  match _ : s.next? shows closes with
  | none => s.found
  | some s' => s'.run shows closes
termination_by s.visits
decreasing_by exact visits_next?_lt ‹_›

/-- What was found so far, and after it what is shown of the trees on the stack. -/
def whole (shows closes : Node → Bool) (s : Sweep) : List Node :=
  s.found ++ Node.sweptAll shows closes s.pending.reverse

/-- A step only moves a node from what is still to be visited to what was found. -/
theorem whole_next? (h : s.next? shows closes = some s') : s'.whole shows closes = s.whole shows closes := by
  obtain ⟨n, rest, hpending, hpending', hfound⟩ := next?_cases h
  have hbelow : Node.sweptAll shows closes (if closes n then [] else n.children) =
      if closes n then [] else Node.sweptAll shows closes n.children := by
    split <;> rfl
  rw [whole, whole, hpending, hpending', hfound, Node.sweptAll, Node.swept_eq, Node.sweptAll_append, hbelow]
  simp only [List.append_assoc]

/-- A sweep ends with the nodes that it was to find from the beginning. -/
theorem run_eq_whole (shows closes : Node → Bool) (s : Sweep) : s.run shows closes = s.whole shows closes := by
  induction hvisits : s.visits using Nat.strongRecOn generalizing s with
  | ind visits ih =>
    rw [run]
    split
    · next h => simp [whole, next?_eq_none h, Node.sweptAll]
    · next s' h => exact (ih s'.visits (hvisits ▸ visits_next?_lt h) s' rfl).trans (whole_next? h)

theorem run_start (shows closes : Node → Bool) (n : Node) :
    (start n).run shows closes = Node.swept shows closes n := by
  rw [run_eq_whole, whole, start, List.reverse_singleton, List.nil_append, Node.sweptAll, Node.sweptAll,
    List.append_nil]

end Sweep

end Syntax

namespace Source.Tree

open Syntax Advice

variable {t : Tree} {tag : String} {e : Element}

theorem find?_elements (t : Tree) (tag : String) :
    t.elements.find? (·.tag == tag) = (t.rootD.walk.find? (hasTag tag t)).map t.elementOf := by
  rw [elements, List.find?_map, List.find?_filter]
  congr 2
  funext n
  rw [Bool.eq_iff_iff]
  simp [hasTag, elementOf]

theorem element_eq_ok_iff_find? :
    t.element tag = .ok e ↔ ∃ m, t.rootD.walk.find? (hasTag tag t) = some m ∧ e = t.elementOf m := by
  rw [element, find?_elements]
  cases t.rootD.walk.find? (hasTag tag t) <;> simp [eq_comm]

/-- The element found is the first with its tag in the order of the text. -/
theorem element_eq_ok_iff : t.element tag = .ok e ↔ ∃ q m, t.rootD.at? q = some m ∧ hasTag tag t m = true ∧
    (∀ q' m', t.rootD.at? q' = some m' → hasTag tag t m' = true → q = q' ∨ Node.Before q q') ∧
      e = t.elementOf m := by
  have hfirst (m : Node) := (Node.listsAt_walk t.rootD).find?_eq_some_iff (p := hasTag tag t) (m := m)
    fun q m m' hm hm' => Option.some.inj (hm.symm.trans hm')
  simp only [element_eq_ok_iff_find?, hfirst]
  constructor
  · rintro ⟨m, ⟨q, hm, htag, hfirst⟩, he⟩
    exact ⟨q, m, hm, htag, hfirst, he⟩
  · rintro ⟨q, m, hm, htag, hfirst, he⟩
    exact ⟨m, ⟨q, hm, htag, hfirst⟩, he⟩

/-- An element comes before the one of the same name in it. -/
example : ((Tree.build 1 .tsx "<a><b/><a/></a>;".toList).element "a").toOption.map (·.handle.span) =
    some ⟨0, 15⟩ := by
  decide +kernel

theorem element_eq_error_iff : t.element tag = .error (.elementNotFound tag t.tagNames) ↔
    ∀ q m, t.rootD.at? q = some m → hasTag tag t m = false := by
  have hnone : t.element tag = .error (.elementNotFound tag t.tagNames) ↔ t.rootD.walk.find? (hasTag tag t) = none := by
    rw [element, find?_elements]
    cases t.rootD.walk.find? (hasTag tag t) <;> simp
  rw [hnone, List.find?_eq_none]
  constructor
  · intro h q m hm
    exact Bool.eq_false_iff.mpr (h m ((Node.listsAt_walk t.rootD).mem_iff.mpr ⟨q, hm⟩))
  · intro h m hm
    obtain ⟨q, hq⟩ := (Node.listsAt_walk t.rootD).mem_iff.mp hm
    exact Bool.eq_false_iff.mp (h q m hq)

/-- A walk is a sweep that shows every node, and lists every position of the tree once, in document order. A sweep
that closes the nodes it shows lists, in the same order, the positions that satisfy `p` and have no such position
above them; none of them is below another, and every position that satisfies `p` is below one of them or is one. The
element found for a tag stands at the first position of an element with that tag, so none with that tag encloses it,
and the search fails only where no element has the tag. -/
theorem traversals_in_document_order (n : Node) (p : Node → Bool) (t : Tree) (tag : String) :
    ((Sweep.start n).run (fun _ => true) (fun _ => false) = n.walk ∧
      Node.ListsAt (fun q m => n.at? q = some m) n.walk) ∧
    ((Sweep.start n).run p p = n.outermost p ∧
      (n.outermost p).Sublist n.walk ∧
      Node.ListsAt (fun q m => n.at? q = some m ∧ p m = true ∧ Node.Open p n q) (n.outermost p) ∧
      (∀ q m q' m', Node.ShownAt p p n q m → Node.ShownAt p p n q' m' → q' <+: q → q' = q) ∧
      ∀ q m, n.at? q = some m → p m = true → ∃ q' m', q' <+: q ∧ Node.ShownAt p p n q' m') ∧
    (∀ e, t.element tag = .ok e ↔ ∃ q m, t.rootD.at? q = some m ∧ hasTag tag t m = true ∧
      Node.Open (hasTag tag t) t.rootD q ∧
      (∀ q' m', t.rootD.at? q' = some m' → hasTag tag t m' = true → q = q' ∨ Node.Before q q') ∧
      e = t.elementOf m) ∧
    (t.element tag = .error (.elementNotFound tag t.tagNames) ↔
      ∀ q m, t.rootD.at? q = some m → hasTag tag t m = false) := by
  refine ⟨⟨?_, Node.listsAt_walk n⟩, ⟨?_, Node.outermost_sublist p n, Node.listsAt_outermost p n,
    fun q m q' m' h h' => h.eq_of_prefix h', fun q m => Node.exists_shownAt_prefix⟩, fun e => ?_,
    element_eq_error_iff⟩
  · rw [Sweep.run_start, Node.swept_all]
  · rw [Sweep.run_start, Node.swept_self]
  · rw [element_eq_ok_iff]
    constructor
    · rintro ⟨q, m, hm, htag, hfirst, he⟩
      refine ⟨q, m, hm, htag, fun q' m' habove hne hm' => ?_, hfirst, he⟩
      -- an element with the tag above the first one would come before it
      cases htag' : hasTag tag t m' with
      | false => rfl
      | true =>
        obtain heq | hbefore := hfirst q' m' hm' htag'
        · exact absurd heq.symm hne
        · exact absurd habove hbefore.not_isPrefix
    · rintro ⟨q, m, hm, htag, -, hfirst, he⟩
      exact ⟨q, m, hm, htag, hfirst, he⟩

end Source.Tree

end SourceChange
