import SourceChange.Proofs.Handles
import SourceChange.Proofs.Syntax.Brackets

/-!
How the main component of a module is chosen.

The choice goes by steps, and each step takes the first function that it accepts. So the main component is the
first of those that are accepted earliest. What it goes by is little: the name of a function, whether it is the
default export, and which name the module exports by default.
-/

namespace SourceChange

namespace Syntax.Node

/-- The nodes of a nested tree are met in the order of their starts. -/
theorem Nested.pairwise_visitsUnder {n : Node} (h : n.Nested) (above : List Node) :
    (visitsUnder above n).Pairwise fun v w => v.node.start ≤ w.node.start := by
  induction hdepth : n.depth using Nat.strongRecOn generalizing n above with
  | ind depth ih =>
    have hbelow (c : Node) (hc : c ∈ n.children) := (h.row.of_mem hc).2.2
    have hall : ∀ ns : List Node, ns ⊆ n.children → (ns.Pairwise fun a b => a.stop ≤ b.start) →
        (visitsUnderAll (n :: above) ns).Pairwise fun v w => v.node.start ≤ w.node.start := by
      intro ns hsub hapart
      induction ns with
      | nil => exact .nil
      | cons c ns ihns =>
        obtain ⟨hc, hns⟩ := List.cons_subset.mp hsub
        obtain ⟨hfirst, hapart⟩ := List.pairwise_cons.mp hapart
        rw [visitsUnderAll, List.pairwise_append]
        refine ⟨ih c.depth (hdepth ▸ depth_child_lt hc) (hbelow c hc) _ rfl, ihns hns hapart, ?_⟩
        intro v hv w hw
        obtain ⟨d, hd, hw⟩ := mem_visitsUnderAll.mp hw
        obtain ⟨-, hstop, hnested⟩ := (hbelow c hc).of_mem_walk (mem_walk_of_mem_visitsUnder hv).1
        have hstart := ((hbelow d (hns hd)).of_mem_walk (mem_walk_of_mem_visitsUnder hw).1).1
        have hle := hnested.start_le_stop
        have := hfirst d hd
        omega
    obtain ⟨k, r, s, cs⟩ := n
    rw [visitsUnder]
    refine List.pairwise_cons.mpr ⟨fun w hw => ?_, hall cs (List.Subset.refl cs) h.row.pairwise⟩
    obtain ⟨c, hc, hw⟩ := mem_visitsUnderAll.mp hw
    exact (h.of_mem_walk (mem_walk_of_child hc (mem_walk_of_mem_visitsUnder hw).1)).1

end Syntax.Node

namespace Source

open Syntax Syntax.Node

section Steps

variable {α : Type} {steps : List (α → Bool)} {xs front front' back back' : List α} {x y : α}

/-- The first step that accepts, or their number if none does. -/
def level (steps : List (α → Bool)) (x : α) : Nat := steps.findIdx (· x)

theorem level_cons_of_pos {p : α → Bool} (hp : p x = true) : level (p :: steps) x = 0 := by
  simp [level, List.findIdx_cons, hp]

theorem level_cons_of_neg {p : α → Bool} (hp : ¬ p x = true) :
    level (p :: steps) x = level steps x + 1 := by
  simp [level, List.findIdx_cons, hp]

/-- Two places in a list are the same, or one precedes the other. -/
theorem places_of_append_eq (h : front ++ x :: back = front' ++ y :: back') :
    x ∈ front' ∧ y ∈ back ∨ x = y ∧ front = front' ∧ back = back' ∨ x ∈ back' ∧ y ∈ front := by
  obtain ⟨as, rfl, hrest⟩ | ⟨as, rfl, hrest⟩ := List.append_eq_append_iff.mp h
  all_goals
    cases as
    all_goals
      obtain ⟨rfl, rfl⟩ := List.cons.inj hrest
      simp

/-- Of all that the earliest step accepts, a choice by steps takes the first. -/
theorem findSome?_find?_eq_some_iff :
    steps.findSome? (xs.find? ·) = some x ↔ ∃ front back, xs = front ++ x :: back ∧
      level steps x < steps.length ∧ (∀ y ∈ front, level steps x < level steps y) ∧
      ∀ y ∈ back, level steps x ≤ level steps y := by
  induction steps with
  | nil => simp
  | cons p steps ih =>
    rw [List.findSome?_cons]
    cases hfind : xs.find? p with
    | some y =>
      obtain ⟨hp, as, bs, rfl, has⟩ := List.find?_eq_some_iff_append.mp hfind
      have hy : level (p :: steps) y = 0 := level_cons_of_pos hp
      have hbefore : ∀ z ∈ as, 0 < level (p :: steps) z := by
        intro z hz
        rw [level_cons_of_neg (by simpa using has z hz)]
        exact Nat.zero_lt_succ _
      constructor
      · rintro ⟨⟩
        exact ⟨as, bs, rfl, hy ▸ Nat.zero_lt_succ _, hy ▸ hbefore, fun z _ => hy ▸ Nat.zero_le _⟩
      · rintro ⟨front, back, heq, -, hfront, hback⟩
        obtain ⟨hfirst, -⟩ | ⟨rfl, -, -⟩ | ⟨hlast, hfirst⟩ := places_of_append_eq heq
        · have := hfront y hfirst
          omega
        · rfl
        · have := hback y hlast
          have := hbefore x hfirst
          omega
    | none =>
      have hlevel : ∀ z ∈ xs, level (p :: steps) z = level steps z + 1 := fun z hz =>
        level_cons_of_neg (List.find?_eq_none.mp hfind z hz)
      dsimp only
      rw [ih]
      refine exists_congr fun front => exists_congr fun back => and_congr_right fun heq => ?_
      subst heq
      obtain ⟨hfront, hx, hback⟩ : (∀ y ∈ front, level (p :: steps) y = level steps y + 1) ∧
          level (p :: steps) x = level steps x + 1 ∧
          ∀ y ∈ back, level (p :: steps) y = level steps y + 1 := by
        simpa only [List.forall_mem_append, List.forall_mem_cons] using hlevel
      rw [hx, List.length_cons]
      refine and_congr (by omega) (and_congr ?_ ?_)
      · exact forall₂_congr fun y hy => by rw [hfront y hy]; omega
      · exact forall₂_congr fun y hy => by rw [hback y hy]; omega

theorem takeWhile_dropWhile_append_cons {p : α → Bool} (front back : List α) (hx : ¬ p x = true) :
    (front ++ x :: back).takeWhile p = front.takeWhile p ∧
      (front ++ x :: back).dropWhile p = front.dropWhile p ++ x :: back := by
  induction front with
  | nil => simp [hx]
  | cons y front ih => by_cases hy : p y = true <;> simp [hy, ih]

end Steps

/-- What the choice of the main component goes by. -/
structure Candidate where
  name : Option String
  isDefaultExport : Bool
  deriving DecidableEq, Repr

namespace Candidate

/-- The steps in which the main component is chosen, where the module exports the value named `exported` by
default. -/
def steps (exported : Option String) : List (Candidate → Bool) :=
  [(·.isDefaultExport), fun c => exported.any (c.name == some ·),
    (·.name.any Text.startsUpper), (·.name.any (· != ""))]

end Candidate

namespace Function

/-- Where a function starts. -/
def start (f : Function) : Nat := f.handle.span.start

def candidate (f : Function) : Candidate := ⟨f.name, f.isDefaultExport⟩

end Function

namespace Tree

variable {t : Tree} {f : Function}

/-- The step that accepts a function as the main component. -/
def level (t : Tree) (c : Candidate) : Nat := Source.level (Candidate.steps t.defaultExportName?) c

theorem mainComponent?_eq (t : Tree) :
    t.mainComponent? = ((Candidate.steps t.defaultExportName?).map fun p f => p f.candidate).findSome?
      (t.functions.find? ·) := by
  have hname (p : String → Bool) :
      (fun f : Function => (f.name.map p).getD false) = fun f => f.candidate.name.any p := by
    funext f
    cases h : f.name <;> simp [Function.candidate, h]
  have hexported : t.defaultExportName?.bind t.functionNamed? =
      t.functions.find? fun f => t.defaultExportName?.any (f.candidate.name == some ·) := by
    cases t.defaultExportName? with
    | none => exact (List.find?_eq_none.mpr (by simp)).symm
    | some n => rfl
  have hdefault : t.defaultExported? = (t.functions.find? (·.candidate.isDefaultExport)).or
      (t.defaultExportName?.bind t.functionNamed?) := by
    unfold defaultExported?
    cases h : t.functions.find? (·.isDefaultExport) <;> simp [Function.candidate, h]
  have hcons (p : Function → Bool) (steps : List (Function → Bool)) :
      (p :: steps).findSome? (t.functions.find? ·) =
        (t.functions.find? p).or (steps.findSome? (t.functions.find? ·)) := by
    rw [List.findSome?_cons]
    split <;> simp [*]
  simp only [mainComponent?, hdefault, hname, hexported, Candidate.steps, List.map_cons, List.map_nil, hcons,
    List.findSome?_nil, Option.or_none, Option.orElse_eq_orElse, Option.orElse_eq_or, Option.or_assoc]

/-- The main component is the first of the functions that are accepted earliest. -/
theorem mainComponent?_eq_some_iff :
    t.mainComponent? = some f ↔ ∃ front back, t.functions = front ++ f :: back ∧
      t.level f.candidate < 4 ∧ (∀ c ∈ front.map (·.candidate), t.level f.candidate < t.level c) ∧
      ∀ c ∈ back.map (·.candidate), t.level f.candidate ≤ t.level c := by
  have hlevel (g : Function) : Source.level ((Candidate.steps t.defaultExportName?).map fun p f => p f.candidate) g =
      t.level g.candidate := by
    rw [Source.level, List.findIdx_map]
    rfl
  simp only [mainComponent?_eq, findSome?_find?_eq_some_iff, hlevel, List.length_map, List.forall_mem_map]
  rfl

theorem exists_mainComponent (hf : f ∈ t.functions) (hlevel : t.level f.candidate < 4) :
    ∃ g, t.mainComponent? = some g := by
  obtain ⟨p, hp, haccepts⟩ := List.findIdx_lt_length.mp hlevel
  refine Option.isSome_iff_exists.mp ?_
  rw [mainComponent?_eq, List.findSome?_isSome_iff]
  exact ⟨_, List.mem_map_of_mem hp, List.find?_isSome.mpr ⟨f, hf, haccepts⟩⟩

theorem start_of_functionOf? {v : Visit} (hf : t.functionOf? v = some f) : f.start = v.node.start := by
  obtain ⟨-, name, declarator, rfl⟩ := exists_of_functionOf? hf
  rfl

/-- The functions of a tree stand in the order of their starts. -/
theorem Built.pairwise_functions (ht : t.Built) : t.functions.Pairwise fun f g => f.start ≤ g.start := by
  refine List.Pairwise.filterMap _ (fun v w hle f hf g hg => ?_) (ht.regular.nested.pairwise_visitsUnder [])
  rw [start_of_functionOf? hf, start_of_functionOf? hg]
  exact hle

/-- A function starts within its statement and before its body. -/
theorem Built.start_between (ht : t.Built) (hf : f ∈ t.functions) :
    f.statement.span.start ≤ f.start ∧ f.start ≤ f.body.span.start := by
  obtain ⟨v, hv, hf⟩ := List.mem_filterMap.mp hf
  obtain ⟨-, name, declarator, rfl⟩ := exists_of_functionOf? hf
  have hnode := mem_walk_of_mem_visits hv
  constructor
  · change (enclosingStatement v.node v.ancestors).start ≤ v.node.start
    obtain heq | hmem := enclosingStatement_eq_or_mem v.node v.ancestors
    · exact Nat.le_of_eq (congrArg Node.start heq)
    · obtain ⟨ha, hbelow⟩ := ancestor_mem_walk hv hmem
      exact ((ht.regular.nested.of_mem_walk ha).2.2.of_mem_walk hbelow).1
  · change v.node.start ≤ ((v.node.child? .body).getD v.node).start
    cases hbody : v.node.child? .body with
    | none => exact Nat.le_refl _
    | some b =>
      exact ((ht.regular.nested.of_mem_walk hnode).2.2.of_mem_walk (mem_walk_of_child? hbody)).1

end Tree

section Splicing

variable {t t' : Tree} {f : Function} {fs front back : List Function} {added : List (Edit × List Candidate)}
  {es : List Edit} {c : Candidate}

/-- The functions of a text with new code, in the order of their places. The edits come in their order, each
with the functions of its code. -/
def spliced : List Function → List (Edit × List Candidate) → List Candidate
  | fs, [] => fs.map (·.candidate)
  | fs, (e, new) :: added =>
    (fs.takeWhile (·.start < e.start)).map (·.candidate) ++ new ++
      spliced (fs.dropWhile (·.start < e.start)) added

/-- The functions that start before an offset, and the others. -/
theorem mem_map_split (fs : List Function) (o : Nat) (c : Candidate) :
    c ∈ fs.map (·.candidate) ↔ c ∈ (fs.takeWhile (·.start < o)).map (·.candidate) ∨
      c ∈ (fs.dropWhile (·.start < o)).map (·.candidate) := by
  rw [← List.mem_append, ← List.map_append, List.takeWhile_append_dropWhile]

theorem mem_spliced : c ∈ spliced fs added ↔ c ∈ fs.map (·.candidate) ∨ ∃ x ∈ added, c ∈ x.2 := by
  induction added generalizing fs with
  | nil => simp [spliced]
  | cons x added ih =>
    obtain ⟨e, new⟩ := x
    rw [spliced, List.mem_append, List.mem_append, ih, mem_map_split fs e.start]
    simp only [List.exists_mem_cons_iff]
    tauto

/-- Behind the functions that precede `f`, and behind the new code up to its start, `f` itself follows. -/
theorem exists_spliced (hfront : ∀ g ∈ front, g.start ≤ f.start)
    (hadded : added.Pairwise fun a b => a.1.start ≤ b.1.start) :
    ∃ before after, spliced (front ++ f :: back) added = before ++ f.candidate :: after ∧
      (∀ c, c ∈ before ↔ c ∈ front.map (·.candidate) ∨ ∃ x ∈ added, x.1.start ≤ f.start ∧ c ∈ x.2) ∧
      ∀ c, c ∈ after ↔ c ∈ back.map (·.candidate) ∨ ∃ x ∈ added, f.start < x.1.start ∧ c ∈ x.2 := by
  induction added generalizing front with
  | nil => exact ⟨front.map (·.candidate), back.map (·.candidate), by simp [spliced], by simp, by simp⟩
  | cons x added ih =>
    obtain ⟨e, new⟩ := x
    obtain ⟨hlater, hadded⟩ := List.pairwise_cons.mp hadded
    by_cases hlt : f.start < e.start
    · -- all new code goes behind `f`
      have hbefore : ∀ g ∈ front, decide (g.start < e.start) = true := fun g hg =>
        decide_eq_true (Nat.lt_of_le_of_lt (hfront g hg) hlt)
      have hbehind : ∀ x ∈ (e, new) :: added, f.start < x.1.start :=
        List.forall_mem_cons.mpr ⟨hlt, fun x hx => Nat.lt_of_lt_of_le hlt (hlater x hx)⟩
      refine ⟨front.map (·.candidate), spliced back ((e, new) :: added), ?_, fun c => ?_, fun c => ?_⟩
      · rw [spliced, spliced, List.takeWhile_append_of_pos hbefore, List.dropWhile_append_of_pos hbefore]
        simp [hlt]
      · refine ⟨.inl, fun h => h.resolve_right ?_⟩
        rintro ⟨x, hx, hle, -⟩
        exact absurd (hbehind x hx) (Nat.not_lt.mpr hle)
      · rw [mem_spliced]
        refine or_congr_right (exists_congr fun x => and_congr_right fun hx => ?_)
        exact ⟨fun hc => ⟨hbehind x hx, hc⟩, fun h => h.2⟩
    · have hstop : ¬ decide (f.start < e.start) = true := by simpa using hlt
      have hdropped : ∀ g ∈ front.dropWhile (·.start < e.start), g.start ≤ f.start := fun g hg =>
        hfront g ((List.dropWhile_sublist _).mem hg)
      obtain ⟨before, after, heq, hbefore, hafter⟩ := ih hdropped hadded
      refine ⟨(front.takeWhile (·.start < e.start)).map (·.candidate) ++ new ++ before, after, ?_, fun c => ?_,
        fun c => ?_⟩
      · obtain ⟨htake, hdrop⟩ :=
          takeWhile_dropWhile_append_cons (p := fun g => decide (g.start < e.start)) front back hstop
        rw [spliced, htake, hdrop, heq, List.append_assoc (_ ++ new)]
      · rw [List.mem_append, List.mem_append, hbefore, mem_map_split front e.start]
        simp only [List.exists_mem_cons_iff, Nat.not_lt.mp hlt, true_and]
        tauto
      · rw [hafter]
        simp [hlt]

/-- A tree as it may be read after edits. The functions of the old text are listed as before, with those of the
new code where it was put, and the module exports the same name by default. -/
structure Rereads (t : Tree) (es : List Edit) (added : List (Edit × List Candidate)) (t' : Tree) : Prop where
  edits : (added.map Prod.fst).Perm es
  ordered : added.Pairwise fun a b => a.1.start ≤ b.1.start
  functions : t'.functions.map (·.candidate) = spliced t.functions added
  exported : t'.defaultExportName? = t.defaultExportName?

/-- A function of new code is chosen before `f`: by an earlier step, or by the same one and from a place that is
not behind the start of `f`. -/
def Overtakes (t : Tree) (f : Function) (e : Edit) (c : Candidate) : Prop :=
  t.level c < t.level f.candidate ∨ t.level c = t.level f.candidate ∧ e.start ≤ f.start

instance (t : Tree) (f : Function) (e : Edit) (c : Candidate) : Decidable (Overtakes t f e c) :=
  inferInstanceAs (Decidable (_ ∨ _))

/-- The main component stays if no new code overtakes it; otherwise it is a function of the new code that does. -/
theorem Rereads.exists_mainComponent (h : Rereads t es added t') (ht : t.Built)
    (hf : t.mainComponent? = some f) :
    ∃ g, t'.mainComponent? = some g ∧
      (g.candidate = f.candidate ∧ (∀ x ∈ added, ∀ c ∈ x.2, ¬ Overtakes t f x.1 c) ∨
        ∃ x ∈ added, g.candidate ∈ x.2 ∧ Overtakes t f x.1 g.candidate) := by
  obtain ⟨front, back, hfunctions, hlevel, hfront, hback⟩ := Tree.mainComponent?_eq_some_iff.mp hf
  have hstart : ∀ g ∈ front, g.start ≤ f.start := by
    have hordered := hfunctions ▸ ht.pairwise_functions
    exact fun g hg => (List.pairwise_append.mp hordered).2.2 g hg f List.mem_cons_self
  obtain ⟨before, after, hspliced, hbefore, hafter⟩ := exists_spliced hstart h.ordered
  have hlist : t'.functions.map (·.candidate) = before ++ f.candidate :: after := by
    rw [h.functions, hfunctions, hspliced]
  have hsame : t'.level = t.level := by
    funext c
    rw [Tree.level, h.exported, Tree.level]
  obtain ⟨g, hg⟩ : ∃ g, t'.mainComponent? = some g := by
    obtain ⟨f', hf', heq⟩ := List.mem_map.mp (hlist ▸ List.mem_append_right before List.mem_cons_self)
    exact Tree.exists_mainComponent hf' (by rwa [heq, hsame])
  refine ⟨g, hg, ?_⟩
  obtain ⟨front', back', hfunctions', -, hfront', hback'⟩ := Tree.mainComponent?_eq_some_iff.mp hg
  rw [hfunctions', List.map_append, List.map_cons] at hlist
  rw [hsame] at hfront' hback'
  obtain ⟨hg, hf⟩ | ⟨heq, rfl, rfl⟩ | ⟨hg, hf⟩ := places_of_append_eq hlist
  · -- a function before `f` is chosen, though not later than `f`
    have hle := hback' _ hf
    obtain hold | ⟨x, hx, hplace, hnew⟩ := (hbefore _).mp hg
    · have := hfront _ hold
      omega
    · refine .inr ⟨x, hx, hnew, ?_⟩
      rw [Overtakes]
      omega
  · refine .inl ⟨heq, fun x hx c hc hovertakes => ?_⟩
    rw [heq] at hfront' hback'
    rw [Overtakes] at hovertakes
    by_cases hplace : x.1.start ≤ f.start
    · have := hfront' c ((hbefore c).mpr (.inr ⟨x, hx, hplace, hc⟩))
      omega
    · have := hback' c ((hafter c).mpr (.inr ⟨x, hx, Nat.lt_of_not_le hplace, hc⟩))
      omega
  · -- a function behind `f` is chosen, and so earlier than `f`
    have hlt := hfront' _ hf
    obtain hold | ⟨x, hx, -, hnew⟩ := (hafter _).mp hg
    · have := hback _ hold
      omega
    · exact .inr ⟨x, hx, hnew, .inl hlt⟩

end Splicing

end Source

end SourceChange
