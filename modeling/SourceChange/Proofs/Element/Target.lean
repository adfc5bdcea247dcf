import SourceChange.Proofs.Stepwise.Operations

/-!
The target of a change.

It is the first element with a tag, in the tree of a draft. A change of one of its attributes is one edit in
its opening tag.
-/

namespace SourceChange

open Source Syntax

namespace Element

/-- The target of a change, in the tree of a draft, with its opening tag. -/
structure TargetTag (d : Draft) (target : String) (t : Tree) (opening : Node) : Prop where
  tree : (d.tree.on .plain).1 = .ok t
  found : ∃ element, t.element target = .ok element ∧ t.resolve element.opening = .ok opening

/-- The target of a change, with its opening tag. -/
def findTag? (d : Draft) (target : String) : Option (Tree × Node) := do
  let t ← (d.tree.on .plain).1.toOption
  let element ← (t.element target).toOption
  let opening ← (t.resolve element.opening).toOption
  return (t, opening)

/-- One edit in the opening tag of a target. -/
def editTag (d : Draft) (target : String) (edit : Tree → Node → Except Failure Edit) (summary : String) :
    Reading Outcome := do
  let t ← d.tree
  let element ← t.element target
  let opening ← t.resolve element.opening
  let text ← t.edited [← edit t opening]
  return .plain text summary

variable {d : Draft} {target : String} {t : Tree} {opening : Node} {edit : Tree → Node → Except Failure Edit}
  {summary : String} {change : ElementChange} {r : Reader} {o : Outcome}

theorem TargetTag.eq {t' : Tree} {opening' : Node} (h : TargetTag d target t opening)
    (h' : TargetTag d target t' opening') : t = t' ∧ opening = opening' := by
  obtain rfl := Except.ok.inj (h.tree.symm.trans h'.tree)
  obtain ⟨element, helement, hopening⟩ := h.found
  obtain ⟨element', helement', hopening'⟩ := h'.found
  obtain rfl := Except.ok.inj (helement.symm.trans helement')
  exact ⟨rfl, Except.ok.inj (hopening.symm.trans hopening')⟩

theorem targetTag_of_findTag? (h : findTag? d target = some (t, opening)) :
    TargetTag d target t opening := by
  obtain ⟨t', ht, h⟩ := Option.bind_eq_some_iff.mp h
  obtain ⟨element, helement, h⟩ := Option.bind_eq_some_iff.mp h
  obtain ⟨opening', hopening, h⟩ := Option.bind_eq_some_iff.mp h
  cases h
  exact ⟨toOption_eq_some_iff.mp ht, element, toOption_eq_some_iff.mp helement,
    toOption_eq_some_iff.mp hopening⟩

theorem TargetTag.reads (h : TargetTag d target t opening) : d.Reads t := Draft.reads_of_uncached rfl h.tree

theorem TargetTag.mem_walk (h : TargetTag d target t opening) : opening ∈ t.rootD.walk := by
  obtain ⟨_, -, hopening⟩ := h.found
  exact (Tree.resolve_eq_ok hopening).1

/-- The text of a draft is that of its tree. -/
theorem TargetTag.toList_text (h : TargetTag d target t opening) : d.text.toList = t.chars := by
  rw [← h.reads.text_eq, Tree.text, String.toList_ofList]

theorem editTag_on (h : TargetTag d target t opening) (edit : Tree → Node → Except Failure Edit)
    (summary : String) :
    ((editTag d target edit summary).on .plain).1 =
      (edit t opening >>= fun e => t.edited [e]).map fun text => .plain text summary := by
  obtain ⟨element, helement, hopening⟩ := h.found
  have htree := h.tree
  rw [editTag, Reading.on_bind]
  rcases hread : d.tree.on .plain with ⟨_ | t', r⟩
  · rw [hread] at htree
    cases htree
  · rw [hread] at htree
    cases htree
    simp only [helement, hopening, Reading.on_bind, Reading.on_liftM]
    cases edit t opening with
    | error e => rfl
    | ok e =>
      simp only [bind, Except.bind]
      cases t.edited [e] <;> rfl

/-- A change that succeeds found its target and made its edit. -/
theorem exists_edit (h : ((editTag d target edit summary).on .plain).1 = .ok o) :
    ∃ t opening e, TargetTag d target t opening ∧ edit t opening = .ok e ∧ t.edited [e] = .ok o.text := by
  obtain ⟨t, ht, h⟩ := Reading.exists_of_bind_on_eq_ok h
  obtain ⟨element, helement, h⟩ := Reading.exists_of_liftM_on_eq_ok h
  obtain ⟨opening, hopening, h⟩ := Reading.exists_of_liftM_on_eq_ok h
  obtain ⟨e, he, h⟩ := Reading.exists_of_liftM_on_eq_ok h
  obtain ⟨text, htext, h⟩ := Reading.exists_of_liftM_on_eq_ok h
  rw [Reading.on_pure] at h
  cases h
  exact ⟨t, opening, e, ⟨ht, element, helement, hopening⟩, he, htext⟩

/-- A change of an element does what it does with a reader that keeps no trees. -/
theorem apply_element_on (hr : r.Exact) (hdiscerns : r.Discerns ((Operation.element target change).apply d).run)
    (hlanguage : d.language ≠ .plaintext) :
    (((Operation.element target change).apply d).on r).1 =
      ((Operation.changeElement d target change).on .plain).1 := by
  rw [Operation.apply_on_eq hr hdiscerns]
  unfold Operation.apply
  split
  case isTrue hplain => exact absurd (beq_iff_eq.mp (Bool.and_eq_true_iff.mp hplain).2) hlanguage
  case isFalse => rfl

/-- A change of an element that succeeds works on a file with a tree. -/
theorem changeElement_of_apply (hr : r.Exact)
    (hdiscerns : r.Discerns ((Operation.element target change).apply d).run)
    (h : (((Operation.element target change).apply d).on r).1 = .ok o) :
    d.language ≠ .plaintext ∧ ((Operation.changeElement d target change).on .plain).1 = .ok o := by
  have hlanguage : d.language ≠ .plaintext := fun hplain => by
    rw [Operation.apply_on_eq hr hdiscerns] at h
    have hstructural : (Operation.element target change).isStructural = true := by cases change <;> rfl
    rw [Operation.apply, hstructural, hplain] at h
    cases h
  exact ⟨hlanguage, (apply_element_on hr hdiscerns hlanguage) ▸ h⟩

end Element

end SourceChange
