import SourceChange.Proofs.History
import SourceChange.Proofs.Stepwise.Operations

/-!
Change sets are applied step by step.

So a change set comes to the same result with every reader that answers with the right trees.
-/

namespace SourceChange

open Source Source.Reader

namespace FileChange

variable (c : FileChange) (mode : RunMode) (reserved : List String)

theorem baseline_stepwise (text : String) : (c.baseline text).Stepwise := by
  unfold baseline
  split
  · exact .pure _
  · rw [Reading.strictFile, bind_assoc]
    refine .lenientFile _ _ _ (fun t v w => ?_) fun t => ?_
    · unfold Reading.check
      change (if t.hasErrors then _ else _) >>= _ = (if t.hasErrors then _ else _) >>= _
      cases t.hasErrors <;> rfl
    · unfold Reading.check
      split
      · exact .throw _
      · exact .pure _

theorem step_stepwise (n : Nat) (op : Operation) (p : Progress) :
    (c.step mode reserved n op p).Stepwise := by
  have happly := Operation.apply_stepwise ⟨c.path, c.language, p.text⟩ op
  unfold step
  split
  · exact .bind (.throw _) fun _ => .bind happly fun o => .lifted fun _ => .pure _
  · exact .bind happly fun o => .lifted fun _ => .pure _

theorem steps_stepwise (n : Nat) (ops : List Operation) (p : Progress) :
    Stepwise (c.steps mode reserved n ops p) := by
  induction ops generalizing n p with
  | nil => exact .pure _
  | cons op rest ih =>
    rw [steps]
    refine .bind (c.step_stepwise mode reserved n op p) fun result => ?_
    split
    · exact ih _ _
    · exact .pure _

theorem checkResult_stepwise (before : Option (List String)) (text : String) :
    (c.checkResult mode before text).Stepwise := by
  unfold checkResult
  split
  · exact .pure _
  refine .lenientFile _ _ _ (fun t v w => rfl) fun t => ?_
  dsimp only
  split
  · exact .throw _
  split
  · split
    · exact .pure _
    · split
      · exact .throw _
      · exact .pure _
  · exact .pure _

theorem checkCreatedTexts_stepwise (created : List (String × String)) :
    (checkCreatedTexts created).Stepwise := by
  induction created with
  | nil => exact .pure _
  | cons f rest ih =>
    unfold checkCreatedTexts
    dsimp only
    split
    · refine .lenient _ _ (fun t v w => rfl) fun t => ?_
      split
      · exact .throw _
      · exact ih
    · exact ih

/-- The work of a file change never depends on the version of a tree. -/
theorem run_stepwise (start : Option String) : Stepwise (c.run mode start reserved) := by
  have hcheck (before : Option (List String)) (p : Progress) : (c.checkAll mode before p).Stepwise :=
    .bind (c.checkResult_stepwise mode before p.text) fun _ => checkCreatedTexts_stepwise p.created
  have hfrom (text : String) : Stepwise (c.runFrom mode reserved text) := by
    unfold runFrom
    refine .bind (c.baseline_stepwise text) fun result => ?_
    split
    · exact .pure _
    · refine .bind (c.steps_stepwise mode reserved ..) fun result => ?_
      split
      · exact .pure _
      · refine .bind (hcheck _ _) fun result => ?_
        split <;> exact .pure _
  unfold run
  split
  · exact .pure _
  · split
    · exact .pure _
    · split
      · exact .pure _
      · split
        · exact .pure _
        · exact hfrom _

theorem runAll_stepwise (changes : List FileChange) (content : Option String) :
    Stepwise (runAll mode reserved changes content) := by
  induction changes generalizing content with
  | nil => exact .pure _
  | cons c rest ih =>
    exact .bind (c.run_stepwise mode reserved content) fun o => .bind (ih _) fun events => .pure _

end FileChange

namespace Group

theorem runFrom_stepwise (mode : RunMode) (reserved : List String) (changes : List FileChange)
    (result : PathResult) : Stepwise (runFrom mode reserved changes result) := by
  induction changes generalizing result with
  | nil => exact .pure _
  | cons c rest ih => exact .bind (c.run_stepwise mode reserved _) fun o => ih _

theorem runUnder_stepwise (g : Group) (settings : Settings) (fate : Fate) (reserved : List String)
    (start : Option String) : Stepwise (g.runUnder settings fate reserved start) := by
  cases fate with
  | finishes => exact runFrom_stepwise ..
  | hangs => exact .pure _
  | crashes text => exact .pure _

end Group

namespace Advice

theorem analyze_stepwise (limits : Limits) (path content : String) :
    Stepwise (analyze limits path content) := by
  unfold analyze
  dsimp only
  split
  · exact .pure _
  · refine .ask ⟨some path, .tsx, content⟩ (fun t v => ?_) fun t => ?_
    · simp only [suggestions_withVersion]
      rfl
    · split <;> exact .pure _

theorem suggestAll_stepwise (limits : Limits) (files : List (String × String)) :
    Stepwise (suggestAll limits files) := by
  refine .bind (.bind (.mapM (fun f => ?_) files) fun _ => .pure _) fun _ => .pure _
  exact analyze_stepwise limits f.1 f.2

end Advice

namespace ChangeSet

variable (c : ChangeSet) (settings : Settings) (around : Circumstances) (fresh : String)
  (files : Files)

theorem advise_stepwise (modified : List ModifiedFile) : Stepwise (advise settings around modified) := by
  unfold advise
  split
  · exact Advice.suggestAll_stepwise ..
  · exact .pure _

theorem runGroups_stepwise : Stepwise (c.runGroups settings around files) :=
  .mapM (fun g => g.runUnder_stepwise settings _ _ _) _

theorem apply_stepwise : Stepwise (c.apply settings around fresh files) := by
  refine .bind (c.runGroups_stepwise settings around files) fun results => ?_
  dsimp only
  split
  · exact .bind (advise_stepwise settings around _) fun _ => .pure _
  · exact .bind (.pure _) fun _ => .pure _

end ChangeSet

namespace Settings

variable (settings : Settings) (fresh : String)

/-- Applies change sets one after the other, each to the files that those before it have written; gives
their results and the files in the end. -/
def applyAll : List ChangeSet → Files → StateM Reader (List ApplyResult × Files)
  | [], files => return ([], files)
  | c :: rest, files => do
    let result ← c.apply settings .calm fresh files
    let (results, files) ← applyAll rest (result.publish files)
    return (result :: results, files)

theorem applyAll_stepwise (changes : List ChangeSet) (files : Files) :
    Stepwise (settings.applyAll fresh changes files) := by
  induction changes generalizing files with
  | nil => exact .pure _
  | cons c rest ih =>
    exact .bind (c.apply_stepwise settings .calm fresh files) fun result =>
      .bind (ih (result.publish files)) fun _ => .pure _

theorem applyAll_nil_run (files : Files) (r : Reader) :
    (settings.applyAll fresh [] files).run r = (([], files), r) := rfl

theorem applyAll_cons_run (c : ChangeSet) (rest : List ChangeSet) (files : Files) (r : Reader) :
    (settings.applyAll fresh (c :: rest) files).run r =
      let first := (c.apply settings .calm fresh files).run r
      let later := (settings.applyAll fresh rest (first.1.publish files)).run first.2
      ((first.1 :: later.1.1, later.1.2), later.2) := rfl

end Settings

end SourceChange
