import SourceChange.Proofs.Cache
import SourceChange.Proofs.FileRun.Outcome

/-!
Why the text of a change can be trusted.

A run does nothing to its reader but read. The reader checked the text that a change ends with, whatever
its operations have made of the text in between, and so it vouches for it from then on.
-/

namespace SourceChange.FileChange

open Source

variable {c : FileChange} {mode : RunMode} {start : Option String} {reserved : List String}
  {r r₁ : Reader}

theorem baseline_yields (text : String) : (c.baseline text).Yields fun _ => True := by
  unfold baseline
  split
  · exact .pure trivial
  · unfold Reading.strictFile Reading.check
    refine .andThen (.andThen (.lenientFile ..) fun t => ?_) fun t => .pure trivial
    split
    · exact .throw _
    · exact .pure trivial

theorem step_yields (n : Nat) (op : Operation) (p : Progress) :
    (c.step mode reserved n op p).Yields fun _ => True := by
  have happly := (Operation.apply_yields ⟨c.path, c.language, p.text⟩ op).mono fun _ _ => trivial
  unfold step
  split
  · exact .andThen (.throw _) fun _ => .andThen happly fun o => .lifted fun _ => .pure trivial
  · exact .andThen happly fun o => .lifted fun _ => .pure trivial

theorem steps_reads (n : Nat) (ops : List Operation) (p : Progress) :
    Reader.Reads (c.steps mode reserved n ops p) := by
  induction ops generalizing n p with
  | nil => exact .pure _
  | cons op rest ih =>
    rw [steps]
    refine .bind ⟨(step_yields n op p).leads⟩ fun result => ?_
    split
    · exact ih _ _
    · exact .pure _

theorem checkResult_yields (before : Option (List String)) (text : String) :
    (c.checkResult mode before text).Yields fun _ => True := by
  unfold checkResult
  split
  · exact .pure trivial
  refine .andThen (.lenientFile ..) fun t => ?_
  dsimp only
  split
  · exact .throw _
  split
  · split
    · exact .pure trivial
    · split
      · exact .throw _
      · exact .pure trivial
  · exact .pure trivial

theorem checkCreatedTexts_yields (created : List (String × String)) :
    (checkCreatedTexts created).Yields fun _ => True := by
  induction created with
  | nil => exact .pure trivial
  | cons f rest ih =>
    unfold checkCreatedTexts
    dsimp only
    split
    · refine .andThen (.lenient ..) fun t => ?_
      split
      · exact .throw _
      · exact ih
    · exact ih

theorem checkAll_yields (before : Option (List String)) (p : Progress) :
    (c.checkAll mode before p).Yields fun _ => True :=
  .andThen (checkResult_yields before p.text) fun _ => checkCreatedTexts_yields p.created

/-- Running a change does nothing to the reader but read. -/
theorem run_reads (c : FileChange) (mode : RunMode) (start : Option String) (reserved : List String) :
    Reader.Reads (c.run mode start reserved) := by
  have hfrom (text : String) : Reader.Reads (c.runFrom mode reserved text) := by
    unfold runFrom
    refine .bind ⟨(baseline_yields text).leads⟩ fun result => ?_
    split
    · exact .pure _
    · refine .bind (steps_reads ..) fun result => ?_
      split
      · exact .pure _
      · refine .bind ⟨(checkAll_yields ..).leads⟩ fun result => ?_
        split <;> exact .pure _
  unfold run
  split
  · exact .pure _
  · split
    · exact .pure _
    · split
      · exact .pure _
      · split
        · exact .pure _
        · exact hfrom _

theorem Opens.leads {text : String} {before : Option (List String)}
    (h : c.Opens text r before r₁) : r.Leads r₁ := by
  cases h with
  | plain => exact .refl
  | parsed => exact .fileTree _ _ _ .refl

theorem Carried.leads {text : String} {n : Nat} {p : Progress}
    (h : c.Carried mode reserved text r₁ n p r) : r₁.Leads r := by
  induction h with
  | start => exact .refl
  | @next n p r r' op o _ _ _ happly _ ih =>
    have hlead := (Operation.apply_yields ⟨c.path, c.language, p.text⟩ op).leads r
    rw [happly] at hlead
    exact ih.trans hlead

/-- The reader vouches for the text of a change that completes. -/
theorem Completes.vouches {p : Progress} (h : c.Completes mode start reserved r p)
    (hexact : r.Exact) : ((c.run mode start reserved).run r).2.Vouches c.language p.text := by
  obtain ⟨before, r₁, r₂, hbegins, hcarried, hpasses⟩ := h
  have hexact₂ : r₂.Exact := (hbegins.opens.leads.trans hcarried.leads).exact hexact
  have hvouches : r₂.Vouches c.language p.text := by
    by_cases hplain : c.language = .plaintext
    · rw [hplain]
      exact .inl fun g hg => by cases hg
    · exact hexact₂.vouches (hpasses.result hplain).1
  have hreader : ((c.run mode start reserved).run r).2 = ((c.checkAll mode before p).on r₂).2 := by
    rw [hbegins.run_eq, hcarried.steps_run_all]
    dsimp only
    rcases (c.checkAll mode before p).on r₂ with ⟨e | u, r₃⟩ <;> rfl
  rw [hreader]
  exact hvouches.of_leads ((checkAll_yields before p).leads r₂)

/-- The reader vouches for the text of every change that leaves one. -/
theorem run_content_vouched (hexact : r.Exact) {text : String}
    (hcontent : ((c.run mode start reserved).run r).1.content = some text) :
    ((c.run mode start reserved).run r).2.Vouches c.language text := by
  obtain ⟨hpayload, haction, hoperations, hstart⟩ | ⟨p, h⟩ | ⟨index, e, h⟩ :=
    deletes_or_completes_or_blames c mode start reserved r
  · rw [run_of_delete hpayload haction hoperations hstart] at hcontent
    cases hcontent
  · rw [h.run_eq] at hcontent
    cases hcontent
    exact h.vouches hexact
  · obtain ⟨summaries, hrun⟩ := h.run_eq
    rw [hrun] at hcontent
    cases hcontent

end SourceChange.FileChange
