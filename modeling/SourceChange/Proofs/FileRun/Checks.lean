import SourceChange.Proofs.FileRun.Stages

/-!
The final checks of a file change, and what they let pass.
-/

namespace SourceChange.FileChange

open Source

variable (c : FileChange) (mode : RunMode) (r : Reader)

/-- No name counts as introduced exactly if none is declared more often than before. -/
theorem introduced_eq_nil {before after : List String} :
    introduced before after = [] ↔ ∀ n, after.count n ≤ before.count n := by
  have hsorted (xs : List String) : Text.sorted xs = [] ↔ xs = [] := by
    rw [← List.length_eq_zero_iff, Text.sorted, (List.mergeSort_perm xs _).length_eq,
      List.length_eq_zero_iff]
  rw [introduced, hsorted, List.filter_eq_nil_iff]
  constructor
  · intro h n
    by_cases hn : n ∈ after
    · simpa using h n (List.mem_eraseDups.mpr hn)
    · rw [List.count_eq_zero.mpr hn]
      exact Nat.zero_le _
  · intro h n _
    simpa using h n

theorem checkCreatedTexts_cons_on (f : String × String) (rest : List (String × String)) :
    (checkCreatedTexts (f :: rest)).on r =
      if Language.ofPath f.1 = .plaintext then (checkCreatedTexts rest).on r
      else if (r.read (Language.ofPath f.1) f.2).1.hasErrors then
        (.error (.createdBroken f.1), (r.read (Language.ofPath f.1) f.2).2)
      else (checkCreatedTexts rest).on (r.read (Language.ofPath f.1) f.2).2 := by
  conv => lhs; unfold checkCreatedTexts
  dsimp only
  by_cases hplain : Language.ofPath f.1 = .plaintext
  · simp [hplain]
  · rw [if_neg hplain, if_pos (by simpa using hplain), Reading.on_bind, Reading.on_lenient]
    dsimp only
    split <;> rfl

/-- The created files are let pass if their grammars accept all of them, and refused for one that its
grammar does not accept. -/
theorem checkCreatedTexts_spec (files : List (String × String)) :
    (((checkCreatedTexts files).on r).1 = .ok () ∧
        ∀ f ∈ files, (Language.ofPath f.1).Accepts f.2) ∨
      ∃ f ∈ files, ((checkCreatedTexts files).on r).1 = .error (.createdBroken f.1) ∧
        ¬ (Language.ofPath f.1).Accepts f.2 := by
  induction files generalizing r with
  | nil => exact .inl ⟨rfl, by simp⟩
  | cons f rest ih =>
    have hread := Tree.build_hasErrors_eq_false r.version (Language.ofPath f.1) f.2
    rw [checkCreatedTexts_cons_on]
    by_cases hclean : (Language.ofPath f.1).Accepts f.2
    · -- a file that is accepted passes the turn on to the others, read or not
      have hrest (r' : Reader) : (((checkCreatedTexts rest).on r').1 = .ok () ∧
            ∀ g ∈ f :: rest, (Language.ofPath g.1).Accepts g.2) ∨
          ∃ g ∈ f :: rest, ((checkCreatedTexts rest).on r').1 = .error (.createdBroken g.1) ∧
            ¬ (Language.ofPath g.1).Accepts g.2 := by
        obtain ⟨hok, hall⟩ | ⟨g, hg, herror, hbroken⟩ := ih r'
        · exact .inl ⟨hok, List.forall_mem_cons.mpr ⟨hclean, hall⟩⟩
        · exact .inr ⟨g, List.mem_cons_of_mem _ hg, herror, hbroken⟩
      split
      · exact hrest r
      · rw [if_neg]
        · exact hrest _
        · simpa [Reader.read] using hread.mpr hclean
    · have hplain : Language.ofPath f.1 ≠ .plaintext := by
        intro hplain
        rw [hplain] at hclean
        exact hclean fun g hg => by cases hg
      have herrors : (r.read (Language.ofPath f.1) f.2).1.hasErrors = true := by
        rw [← Bool.not_eq_false]
        exact fun h => hclean (hread.mp h)
      rw [if_neg hplain, if_pos herrors]
      exact .inr ⟨f, List.mem_cons_self, rfl, hclean⟩

/-- The result of a change is let pass or refused as `ResultPasses` says. -/
theorem checkResult_spec (before : Option (List String)) (text : String) :
    (((c.checkResult mode before text).on r).1 = .ok () ∧ c.ResultPasses mode before text r) ∨
      ∃ e, ((c.checkResult mode before text).on r).1 = .error e ∧
        e.kind = .postconditionViolated ∧ ¬ c.ResultPasses mode before text r := by
  unfold checkResult ResultPasses
  by_cases hplain : c.language = .plaintext
  · exact .inl ⟨by simp [hplain], fun h => absurd hplain h⟩
  rw [if_neg (by simpa using hplain), Reading.on_bind, Reading.on_lenientFile]
  dsimp only
  cases herrors : (r.fileTree c.path c.language text).1.hasErrors with
  | true => exact .inr ⟨.resultBroken, rfl, rfl, by simp [hplain]⟩
  | false =>
    cases hmode : mode.validateBindings with
    | false => exact .inl ⟨rfl, by simp⟩
    | true =>
      cases before with
      | none => exact .inl ⟨rfl, by simp⟩
      | some names =>
        rw [if_neg Bool.false_ne_true, if_pos rfl]
        by_cases hnew :
            introduced names (r.fileTree c.path c.language text).1.redeclarations = []
        · refine .inl ⟨by simp [hnew], fun _ => ⟨rfl, fun _ names' hnames => ?_⟩⟩
          cases hnames
          exact introduced_eq_nil.mp hnew
        · refine .inr ⟨.duplicateNames _, by simp [hnew]; rfl, rfl, fun hpass => hnew ?_⟩
          exact introduced_eq_nil.mpr ((hpass hplain).2 rfl names rfl)

/-- What operations have produced is let pass or refused as `Passes` says. -/
theorem checkAll_spec (before : Option (List String)) (p : Progress) :
    (((c.checkAll mode before p).on r).1 = .ok () ∧ c.Passes mode before p r) ∨
      ∃ e, ((c.checkAll mode before p).on r).1 = .error e ∧
        e.kind = .postconditionViolated ∧ ¬ c.Passes mode before p r := by
  unfold checkAll
  rw [Reading.on_bind]
  obtain ⟨hok, hresult⟩ | ⟨e, herror, hkind, hresult⟩ := checkResult_spec c mode r before p.text
  · rcases hcheck : (c.checkResult mode before p.text).on r with ⟨result, r'⟩
    rw [hcheck] at hok
    cases hok
    obtain ⟨hok, hcreated⟩ | ⟨f, hf, herror, hbroken⟩ := checkCreatedTexts_spec r' p.created
    · exact .inl ⟨hok, hresult, hcreated⟩
    · exact .inr ⟨_, herror, rfl, fun h => hbroken (h.created f hf)⟩
  · rcases hcheck : (c.checkResult mode before p.text).on r with ⟨result, r'⟩
    rw [hcheck] at herror
    cases herror
    exact .inr ⟨e, rfl, hkind, fun h => hresult h.result⟩

end SourceChange.FileChange
