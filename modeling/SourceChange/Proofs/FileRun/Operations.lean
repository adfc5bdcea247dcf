import SourceChange.Proofs.Creation
import SourceChange.Proofs.FileRun.Stages

/-!
The operations of a file change, one after the other.

`Carried` and `Breaks` tell what the loop over the operations does: it gets through all of them, or it
stops at the first that breaks.
-/

namespace SourceChange.FileChange

open Source

theorem checkCreated_cons (reserved : List String) (done rest : List (String × String))
    (f : String × String) :
    checkCreated reserved done (f :: rest) =
      if f.1 ∈ reserved ∨ f.1 ∈ done.map Prod.fst then .error (.createdExists f.1)
      else checkCreated reserved done rest := by
  have htaken : (reserved.contains f.1 || done.any (·.1 == f.1)) = true ↔
      f.1 ∈ reserved ∨ f.1 ∈ done.map Prod.fst := by
    simp
  unfold checkCreated
  rw [List.forM_eq_forM, List.forM_cons]
  dsimp only
  by_cases h : f.1 ∈ reserved ∨ f.1 ∈ done.map Prod.fst
  · rw [if_pos h, if_pos (htaken.mpr h)]
    rfl
  · rw [if_neg h, if_neg fun h' => h (htaken.mp h')]
    rfl

/-- Created files are let pass exactly if none of their paths is taken. -/
theorem checkCreated_eq_ok {reserved : List String} {done created : List (String × String)} {u : Unit} :
    checkCreated reserved done created = .ok u ↔
      ∀ f ∈ created, f.1 ∉ reserved ∧ f.1 ∉ done.map Prod.fst := by
  induction created with
  | nil => exact ⟨fun _ f hf => by simp at hf, fun _ => rfl⟩
  | cons f rest ih =>
    rw [checkCreated_cons, List.forall_mem_cons, ← ih, ← not_or]
    split
    case isTrue htaken => simp only [reduceCtorEq, htaken, not_true_eq_false, false_and]
    case isFalse hfree => simp only [hfree, not_false_eq_true, true_and]

/-- Created files are refused for a path that is taken. -/
theorem checkCreated_eq_error {reserved : List String} {done created : List (String × String)}
    {e : Failure} (h : checkCreated reserved done created = .error e) :
    ∃ f ∈ created, (f.1 ∈ reserved ∨ f.1 ∈ done.map Prod.fst) ∧ e = .createdExists f.1 := by
  induction created with
  | nil => cases h
  | cons f rest ih =>
    rw [checkCreated_cons] at h
    split at h
    case isTrue htaken =>
      cases h
      exact ⟨f, List.mem_cons_self, htaken, rfl⟩
    case isFalse =>
      obtain ⟨g, hg, htaken, he⟩ := ih h
      exact ⟨g, List.mem_cons_of_mem _ hg, htaken, he⟩

/-- One operation, as far as it gets. -/
theorem step_on (c : FileChange) (mode : RunMode) (reserved : List String) (n : Nat)
    (op : Operation) (p : Progress) (r : Reader) :
    (c.step mode reserved n op p).on r =
      match mode.interruption n with
      | some message => (.error (.unexpected message), r)
      | none =>
        match (op.apply ⟨c.path, c.language, p.text⟩).on r with
        | (.error e, r') => (.error e, r')
        | (.ok o, r') =>
          match checkCreated reserved p.created o.created with
          | .error e => (.error e, r')
          | .ok _ =>
            (.ok ⟨o.text, p.created ++ o.created,
              p.warnings ++ o.warnings.map fun m => ⟨c.path, some n, m⟩,
              p.summaries ++ [o.summary]⟩, r') := by
  unfold step
  cases mode.interruption n with
  | some message => rfl
  | none =>
    simp only [Reading.on_bind, Reading.on_liftM]
    rcases (op.apply ⟨c.path, c.language, p.text⟩).on r with ⟨e | o, r'⟩
    · rfl
    · dsimp only
      cases checkCreated reserved p.created o.created <;> rfl

theorem steps_cons_run (c : FileChange) (mode : RunMode) (reserved : List String) (n : Nat)
    (op : Operation) (ops : List Operation) (p : Progress) (r : Reader) :
    (c.steps mode reserved n (op :: ops) p).run r =
      match (c.step mode reserved n op p).on r with
      | (.ok p', r') => (c.steps mode reserved (n + 1) ops p').run r'
      | (.error e, r') => ((p, some (n, e)), r') := by
  rw [steps, Reader.run_bind, Reading.run_run]
  rcases (c.step mode reserved n op p).on r with ⟨e | p', r'⟩ <;> rfl

variable {c : FileChange} {mode : RunMode} {reserved : List String} {text : String} {r₁ : Reader}
  {n : Nat}

theorem drop_operations_eq {op : Operation} (hop : c.operations[n]? = some op) :
    c.operations.drop n = op :: c.operations.drop (n + 1) := by
  obtain ⟨hlt, hget⟩ := List.getElem?_eq_some_iff.mp hop
  rw [List.drop_eq_getElem_cons hlt, hget]

/-- Carrying out all operations comes to carrying out those that are left. -/
theorem Carried.steps_run {p : Progress} {r : Reader}
    (h : c.Carried mode reserved text r₁ n p r) :
    (c.steps mode reserved 0 c.operations ⟨text, [], [], []⟩).run r₁ =
      (c.steps mode reserved n (c.operations.drop n) p).run r := by
  induction h with
  | start => rw [List.drop_zero]
  | @next n p r r' op o _ hop hcalm happly hfree ih =>
    have hcheck : checkCreated reserved p.created o.created = .ok () := checkCreated_eq_ok.mpr hfree
    rw [ih, drop_operations_eq hop, steps_cons_run, step_on, hcalm, happly]
    simp only [hcheck]

theorem Carried.steps_run_all {p : Progress} {r : Reader}
    (h : c.Carried mode reserved text r₁ c.operations.length p r) :
    (c.steps mode reserved 0 c.operations ⟨text, [], [], []⟩).run r₁ = ((p, none), r) := by
  rw [h.steps_run, List.drop_length]
  rfl

/-- An operation creates at most one file, so that the path it fails for is determined. -/
theorem created_path_unique {d : Draft} {op : Operation} {o : Outcome} {r r' : Reader}
    (happly : (op.apply d).on r = (.ok o, r')) {f g : String × String}
    (hf : f ∈ o.created) (hg : g ∈ o.created) : f.1 = g.1 := by
  have hpaths := (Operation.apply_yields d op).result r o (by rw [happly])
  have hf' := List.mem_map_of_mem (f := Prod.fst) hf
  have hg' := List.mem_map_of_mem (f := Prod.fst) hg
  rw [hpaths, Option.mem_toList] at hf' hg'
  exact Option.some.inj (hf'.symm.trans hg')

theorem Breaks.steps_run {e : Failure} (h : c.Breaks mode reserved text r₁ n e) :
    ∃ p r, (c.steps mode reserved 0 c.operations ⟨text, [], [], []⟩).run r₁ =
      ((p, some (n, e)), r) := by
  cases h with
  | @interrupted p r op message hbefore hop hbroken =>
    refine ⟨p, r, ?_⟩
    rw [hbefore.steps_run, drop_operations_eq hop, steps_cons_run, step_on, hbroken]
  | @refused p r r' op _ hbefore hop hcalm happly =>
    refine ⟨p, r', ?_⟩
    rw [hbefore.steps_run, drop_operations_eq hop, steps_cons_run, step_on, hcalm, happly]
  | @taken p r r' op o f hbefore hop hcalm happly hfile htaken =>
    refine ⟨p, r', ?_⟩
    rw [hbefore.steps_run, drop_operations_eq hop, steps_cons_run, step_on, hcalm, happly]
    dsimp only
    cases hcheck : checkCreated reserved p.created o.created with
    | ok u =>
      have hfree := checkCreated_eq_ok.mp hcheck f hfile
      exact absurd htaken (not_or.mpr hfree)
    | error e =>
      obtain ⟨g, hg, _, rfl⟩ := checkCreated_eq_error hcheck
      rw [created_path_unique happly hfile hg]

/-- An operation whose turn has come is carried out or fails. -/
theorem Carried.next_or_breaks {p : Progress} {r : Reader}
    (h : c.Carried mode reserved text r₁ n p r) (hlt : n < c.operations.length) :
    (∃ p' r', c.Carried mode reserved text r₁ (n + 1) p' r') ∨
      ∃ e, c.Breaks mode reserved text r₁ n e := by
  have hop := List.getElem?_eq_getElem hlt
  cases hmode : mode.interruption n with
  | some message => exact .inr ⟨_, .interrupted h hop hmode⟩
  | none =>
    cases happly : (c.operations[n].apply ⟨c.path, c.language, p.text⟩).on r with
    | mk result r' =>
      cases result with
      | error e => exact .inr ⟨e, .refused h hop hmode happly⟩
      | ok o =>
        cases hcheck : checkCreated reserved p.created o.created with
        | ok u => exact .inl ⟨_, r', .next h hop hmode happly (checkCreated_eq_ok.mp hcheck)⟩
        | error e =>
          obtain ⟨f, hf, htaken, _⟩ := checkCreated_eq_error hcheck
          exact .inr ⟨_, .taken h hop hmode happly hf htaken⟩

/-- All operations are carried out, or there is a first that fails. -/
theorem carried_or_breaks (c : FileChange) (mode : RunMode) (reserved : List String) (text : String)
    (r₁ : Reader) :
    (∃ p r, c.Carried mode reserved text r₁ c.operations.length p r) ∨
      ∃ n e, c.Breaks mode reserved text r₁ n e := by
  -- up to every place, either all operations were carried out or one has failed before it
  have hupto : ∀ n ≤ c.operations.length, (∃ p r, c.Carried mode reserved text r₁ n p r) ∨
      ∃ n e, c.Breaks mode reserved text r₁ n e := by
    intro n
    induction n with
    | zero => exact fun _ => .inl ⟨_, r₁, .start⟩
    | succ n ih =>
      intro hle
      obtain ⟨p, r, h⟩ | hbreaks := ih (by omega)
      · obtain hnext | ⟨e, he⟩ := h.next_or_breaks (by omega)
        · exact .inl hnext
        · exact .inr ⟨n, e, he⟩
      · exact .inr hbreaks
  exact hupto c.operations.length (Nat.le_refl _)

end SourceChange.FileChange
