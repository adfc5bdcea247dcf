import SourceChange.Proofs.FileRun.Checks
import SourceChange.Proofs.FileRun.Operations

/-!
The outcome of a file change.

Every run is a deletion, completes, or has something to blame, and its outcome is decided by that. The files
that it creates have paths that differ from each other and from the reserved ones, their grammars accept them,
and a change that fails creates none.
-/

namespace SourceChange.FileChange

open Source

variable {c : FileChange} {mode : RunMode} {start : Option String} {reserved : List String}
  {r r₁ : Reader} {before : Option (List String)}

theorem startText_eq_ok (h : c.action = .create ↔ start = none) :
    c.startText start = .ok (c.input start) := by
  unfold startText input
  cases haction : c.action <;> cases start <;> simp_all

theorem Opens.baseline_on {text : String} (h : c.Opens text r before r₁) :
    (c.baseline text).on r = (.ok before, r₁) := by
  unfold baseline
  cases h with
  | plain hplain => simp [hplain]
  | parsed hlanguage hclean =>
    rw [if_neg (by simpa using hlanguage), Reading.on_bind, Reading.strictFile, Reading.on_bind,
      Reading.on_lenientFile]
    simp [Reading.check, hclean]

theorem baseline_on_broken {text : String} (hlanguage : c.language ≠ .plaintext)
    (herrors : (r.fileTree c.path c.language text).1.hasErrors = true) :
    (c.baseline text).on r = (.error .syntaxError, (r.fileTree c.path c.language text).2) := by
  unfold baseline
  rw [if_neg (by simpa using hlanguage), Reading.on_bind, Reading.strictFile, Reading.on_bind,
    Reading.on_lenientFile]
  simp [Reading.check, herrors]

/-- A change that gets to its operations ends as they and the final checks decide. -/
theorem Begins.run_eq (h : c.Begins start r before r₁) :
    (c.run mode start reserved).run r =
      match (c.steps mode reserved 0 c.operations ⟨c.input start, [], [], []⟩).run r₁ with
      | ((p, some (n, e)), r₂) => (c.failed (some n) e p.summaries, r₂)
      | ((p, none), r₂) =>
        match (c.checkAll mode before p).on r₂ with
        | (.error e, r₃) => (c.failed none e p.summaries, r₃)
        | (.ok _, r₃) =>
          (⟨c.path, c.action, some p.text, none, p.created, p.warnings, p.summaries⟩, r₃) := by
  have haction : (c.action == .delete) = false := by simpa using h.action
  have hrun : c.run mode start reserved = c.runFrom mode reserved (c.input start) := by
    simp [run, h.payload, haction, startText_eq_ok h.presence]
  rw [hrun, runFrom, Reader.run_bind, Reading.run_run, h.opens.baseline_on]
  dsimp only
  rw [Reader.run_bind]
  rcases (c.steps mode reserved 0 c.operations ⟨c.input start, [], [], []⟩).run r₁
    with ⟨⟨p, _ | ⟨n, e⟩⟩, r₂⟩
  · dsimp only
    rw [Reader.run_bind, Reading.run_run]
    rcases (c.checkAll mode before p).on r₂ with ⟨e | u, r₃⟩ <;> rfl
  · rfl

theorem Completes.run_eq {p : Progress} (h : c.Completes mode start reserved r p) :
    ((c.run mode start reserved).run r).1 =
      ⟨c.path, c.action, some p.text, none, p.created, p.warnings, p.summaries⟩ := by
  obtain ⟨before, r₁, r₂, hbegins, hcarried, hpasses⟩ := h
  rw [hbegins.run_eq, hcarried.steps_run_all]
  dsimp only
  obtain ⟨hok, _⟩ | ⟨_, _, _, hfails⟩ := checkAll_spec c mode r₂ before p
  · rcases hcheck : (c.checkAll mode before p).on r₂ with ⟨result, r₃⟩
    rw [hcheck] at hok
    cases hok
    rfl
  · exact absurd hpasses hfails

theorem run_of_delete (hpayload : c.payloadError = none) (haction : c.action = .delete)
    (hoperations : c.operations = []) (hstart : start ≠ none) :
    (c.run mode start reserved).run r = (⟨c.path, c.action, none, none, [], [], []⟩, r) := by
  have hpresence : c.action = .create ↔ start = none := by simp [haction, hstart]
  have hrun : c.run mode start reserved = pure ⟨c.path, c.action, none, none, [], [], []⟩ := by
    simp [run, hpayload, haction, hoperations, startText_eq_ok hpresence]
  rw [hrun]
  rfl

theorem Blames.run_eq {index : Option Nat} {e : Failure}
    (h : c.Blames mode start reserved r index e) :
    ∃ summaries, ((c.run mode start reserved).run r).1 = c.failed index e summaries := by
  -- before anything is read the run does not depend on the reader
  have hearly {o : FileOutcome} (hrun : c.run mode start reserved = pure o) :
      ((c.run mode start reserved).run r).1 = o := by
    rw [hrun]
    rfl
  cases h with
  | payload hpayload => exact ⟨[], hearly (by simp [run, hpayload])⟩
  | deletion hpayload haction hoperations =>
    exact ⟨[], hearly (by simp [run, hpayload, haction, hoperations])⟩
  | present hpayload haction hstart =>
    obtain ⟨text, rfl⟩ := Option.ne_none_iff_exists'.mp hstart
    exact ⟨[], hearly (by simp [run, hpayload, haction, startText])⟩
  | absent hpayload hdelete haction hstart =>
    refine ⟨[], hearly ?_⟩
    cases hkind : c.action with
    | create => exact absurd hkind haction
    | modify => simp [run, hpayload, hkind, hstart, startText]
    | delete => simp [run, hpayload, hkind, hdelete hkind, hstart, startText]
  | unreadable hpayload haction hpresence hlanguage herrors =>
    refine ⟨[], ?_⟩
    have hrun : c.run mode start reserved = c.runFrom mode reserved (c.input start) := by
      simp [run, hpayload, haction, startText_eq_ok hpresence]
    rw [hrun, runFrom, Reader.run_bind, Reading.run_run, baseline_on_broken hlanguage herrors]
    rfl
  | operation hbegins hbreaks =>
    obtain ⟨p, r₂, hsteps⟩ := hbreaks.steps_run
    exact ⟨p.summaries, by rw [hbegins.run_eq, hsteps]⟩
  | @result before r₁ r₂ p _ hbegins hcarried _ hcheck _ =>
    refine ⟨p.summaries, ?_⟩
    rw [hbegins.run_eq, hcarried.steps_run_all]
    dsimp only
    rcases hall : (c.checkAll mode before p).on r₂ with ⟨result, r₃⟩
    rw [hall] at hcheck
    cases hcheck
    rfl

/-- Every change is a deletion that is carried out, completes, or has something to blame. -/
theorem deletes_or_completes_or_blames (c : FileChange) (mode : RunMode) (start : Option String)
    (reserved : List String) (r : Reader) :
    (c.payloadError = none ∧ c.action = .delete ∧ c.operations = [] ∧ start ≠ none) ∨
      (∃ p, c.Completes mode start reserved r p) ∨
        ∃ index e, c.Blames mode start reserved r index e := by
  cases hpayload : c.payloadError with
  | some e => exact .inr (.inr ⟨_, _, .payload hpayload⟩)
  | none =>
    by_cases hdelete : c.action = .delete → c.operations = []
    case neg =>
      obtain ⟨haction, hoperations⟩ := Classical.not_imp.mp hdelete
      exact .inr (.inr ⟨_, _, .deletion hpayload haction hoperations⟩)
    by_cases hpresence : c.action = .create ↔ start = none
    case neg =>
      by_cases haction : c.action = .create
      · have hstart : start ≠ none := fun h => hpresence ⟨fun _ => h, fun _ => haction⟩
        exact .inr (.inr ⟨_, _, .present hpayload haction hstart⟩)
      · have hstart : start = none := by
          refine Classical.byContradiction fun h => hpresence ?_
          exact ⟨fun h' => absurd h' haction, fun h' => absurd h' h⟩
        exact .inr (.inr ⟨_, _, .absent hpayload hdelete haction hstart⟩)
    by_cases haction : c.action = .delete
    · have hstart : start ≠ none := fun h => by
        have hcreate := hpresence.mpr h
        rw [haction] at hcreate
        cases hcreate
      exact .inl ⟨rfl, haction, hdelete haction, hstart⟩
    refine .inr ?_
    -- the change gets as far as reading its text
    have hopens : (∃ before r₁, c.Begins start r before r₁) ∨
        ∃ index e, c.Blames mode start reserved r index e := by
      by_cases hlanguage : c.language = .plaintext
      · exact .inl ⟨_, _, hpayload, haction, hpresence, .plain hlanguage⟩
      · cases herrors : (r.fileTree c.path c.language (c.input start)).1.hasErrors with
        | false => exact .inl ⟨_, _, hpayload, haction, hpresence, .parsed hlanguage herrors⟩
        | true => exact .inr ⟨_, _, .unreadable hpayload haction hpresence hlanguage herrors⟩
    obtain ⟨before, r₁, hbegins⟩ | hblames := hopens
    · obtain ⟨p, r₂, hcarried⟩ | ⟨n, e, hbreaks⟩ :=
        carried_or_breaks c mode reserved (c.input start) r₁
      · obtain ⟨_, hpasses⟩ | ⟨e, hcheck, hkind, hfails⟩ := checkAll_spec c mode r₂ before p
        · exact .inl ⟨p, before, r₁, r₂, hbegins, hcarried, hpasses⟩
        · exact .inr ⟨none, e, .result hbegins hcarried hfails hcheck hkind⟩
      · exact .inr ⟨some n, e, .operation hbegins hbreaks⟩
    · exact .inr hblames

/-- A change is carried out exactly if its payload could be read, it deletes without operations, its
path is as its action needs it and, unless it deletes, it completes. -/
theorem run_succeeded_iff (c : FileChange) (mode : RunMode) (start : Option String)
    (reserved : List String) (r : Reader) :
    ((c.run mode start reserved).run r).1.succeeded = true ↔
      c.payloadError = none ∧ (c.action = .delete → c.operations = []) ∧
        (c.action = .create ↔ start = none) ∧
        (c.action ≠ .delete → ∃ p, c.Completes mode start reserved r p) := by
  constructor
  · intro hsucceeded
    obtain ⟨hpayload, haction, hoperations, hstart⟩ | ⟨p, h⟩ | ⟨index, e, h⟩ :=
      deletes_or_completes_or_blames c mode start reserved r
    · exact ⟨hpayload, fun _ => hoperations, by simp [haction, hstart],
        fun h => absurd haction h⟩
    · obtain ⟨_, _, _, hbegins, _⟩ := id h
      exact ⟨hbegins.payload, fun h => absurd h hbegins.action, hbegins.presence, fun _ => ⟨p, h⟩⟩
    · obtain ⟨summaries, hrun⟩ := h.run_eq
      rw [hrun] at hsucceeded
      cases hsucceeded
  · rintro ⟨hpayload, hdelete, hpresence, hrest⟩
    by_cases haction : c.action = .delete
    · have hstart : start ≠ none := fun h => by simp [haction, h] at hpresence
      rw [run_of_delete hpayload haction (hdelete haction) hstart]
      rfl
    · obtain ⟨p, h⟩ := hrest haction
      rw [h.run_eq]
      rfl

/-- A change that is not carried out leaves nothing, and there is something to blame. -/
theorem run_of_not_succeeded
    (hfailed : ((c.run mode start reserved).run r).1.succeeded = false) :
    ∃ index e, c.Blames mode start reserved r index e ∧
      ∃ summaries, ((c.run mode start reserved).run r).1 = c.failed index e summaries := by
  obtain ⟨hpayload, haction, hoperations, hstart⟩ | ⟨p, h⟩ | ⟨index, e, h⟩ :=
    deletes_or_completes_or_blames c mode start reserved r
  · rw [run_of_delete hpayload haction hoperations hstart] at hfailed
    cases hfailed
  · rw [h.run_eq] at hfailed
    cases hfailed
  · exact ⟨index, e, h, h.run_eq⟩

/-- A change without operations leaves its input as it is. -/
theorem Completes.text_eq_input {p : Progress} (h : c.Completes mode start reserved r p)
    (hoperations : c.operations = []) : p.text = c.input start := by
  obtain ⟨_, _, _, _, hcarried, _⟩ := h
  rw [hoperations] at hcarried
  cases hcarried
  rfl

/-- What holds of a deletion, of every change that completes and of every failure holds of the outcome
of a run. -/
theorem run_cases {P : FileOutcome → Prop}
    (hdeletes : c.action = .delete → P ⟨c.path, c.action, none, none, [], [], []⟩)
    (hcompletes : ∀ p, c.Completes mode start reserved r p →
      P ⟨c.path, c.action, some p.text, none, p.created, p.warnings, p.summaries⟩)
    (hblames : ∀ index e summaries, P (c.failed index e summaries)) :
    P ((c.run mode start reserved).run r).1 := by
  obtain ⟨hpayload, haction, hoperations, hstart⟩ | ⟨p, h⟩ | ⟨index, e, h⟩ :=
    deletes_or_completes_or_blames c mode start reserved r
  · rw [run_of_delete hpayload haction hoperations hstart]
    exact hdeletes haction
  · rw [h.run_eq]
    exact hcompletes p h
  · obtain ⟨summaries, hrun⟩ := h.run_eq
    rw [hrun]
    exact hblames index e summaries

/-- A deletion leaves no text. -/
theorem run_content_of_delete (haction : c.action = .delete) :
    ((c.run mode start reserved).run r).1.content = none := by
  apply run_cases (P := fun o => o.content = none)
  · exact fun _ => rfl
  · rintro p ⟨_, _, _, hbegins, _⟩
    exact absurd haction hbegins.action
  · exact fun _ _ _ => rfl

/-- A change is carried out exactly if its payload could be read, it deletes without operations, its
path is as its action needs it and, unless it deletes, it completes; its text is then what the
operations made of the input. Otherwise it leaves nothing but a failure, which is blamed on the
operation that broke first, or on none; an operation that breaks off with something that is no refusal
fails with an internal error. -/
theorem run_outcome_exact (c : FileChange) (mode : RunMode) (start : Option String)
    (reserved : List String) (r : Reader) :
    let o := ((c.run mode start reserved).run r).1
    (o.succeeded = true ↔
      c.payloadError = none ∧ (c.action = .delete → c.operations = []) ∧
        (c.action = .create ↔ start = none) ∧
        (c.action ≠ .delete → ∃ p, c.Completes mode start reserved r p)) ∧
    (o.succeeded = true → c.action = .delete → o.content = none) ∧
    (∀ p, c.Completes mode start reserved r p →
      o.content = some p.text ∧ o.created = p.created ∧ o.warnings = p.warnings ∧
        (c.operations = [] → p.text = c.input start)) ∧
    (o.succeeded = false →
      o.content = none ∧ o.created = [] ∧ o.warnings = [] ∧
        ∃ index e, c.Blames mode start reserved r index e) ∧
    (∀ index e, c.Blames mode start reserved r index e →
      o.succeeded = false ∧ o.error = some ⟨c.path, index, e⟩) ∧
    (∀ before r₁ n e, c.Begins start r before r₁ →
      c.Breaks mode reserved (c.input start) r₁ n e → e.isForeign = true →
        o.error = some ⟨c.path, some n, e⟩ ∧ e.kind = .internalError) := by
  dsimp only
  refine ⟨run_succeeded_iff c mode start reserved r, fun _ => run_content_of_delete, ?_, ?_, ?_, ?_⟩
  · intro p h
    rw [h.run_eq]
    exact ⟨rfl, rfl, rfl, h.text_eq_input⟩
  · intro hfailed
    obtain ⟨index, e, h, summaries, hrun⟩ := run_of_not_succeeded hfailed
    rw [hrun]
    exact ⟨rfl, rfl, rfl, index, e, h⟩
  · intro index e h
    obtain ⟨summaries, hrun⟩ := h.run_eq
    rw [hrun]
    exact ⟨rfl, rfl⟩
  · intro before r₁ n e hbegins hbreaks hforeign
    obtain ⟨summaries, hrun⟩ := (Blames.operation hbegins hbreaks).run_eq
    rw [hrun]
    exact ⟨rfl, Failure.kind_of_isForeign hforeign⟩

/-- The paths of the files that operations have created differ from each other. -/
theorem Carried.created_nodup {text : String} {r₁ : Reader} {n : Nat} {p : Progress}
    (h : c.Carried mode reserved text r₁ n p r) : (p.created.map Prod.fst).Nodup := by
  induction h with
  | start => exact List.nodup_nil
  | @next n p r r' op o _ _ _ happly hfree ih =>
    have hpaths := (Operation.apply_yields _ op).result r o (by rw [happly])
    have hnew : (o.created.map Prod.fst).Nodup := by
      rw [hpaths]
      cases op.createdFile? c.path <;> simp
    rw [List.map_append, List.nodup_append]
    refine ⟨ih, hnew, ?_⟩
    rintro q hq _ hq' rfl
    obtain ⟨f, hf, rfl⟩ := List.mem_map.mp hq'
    exact (hfree f hf).2 hq

/-- No operation creates a file with a reserved path. -/
theorem Carried.created_not_reserved {text : String} {r₁ : Reader} {n : Nat} {p : Progress}
    (h : c.Carried mode reserved text r₁ n p r) : ∀ f ∈ p.created, f.1 ∉ reserved := by
  induction h with
  | start => exact fun f hf => by cases hf
  | next _ _ _ _ hfree ih =>
    intro f hf
    obtain hold | hnew := List.mem_append.mp hf
    · exact ih f hold
    · exact (hfree f hnew).1

theorem run_created_nodup :
    (((c.run mode start reserved).run r).1.created.map Prod.fst).Nodup := by
  apply run_cases (P := fun o => (o.created.map Prod.fst).Nodup)
  · exact fun _ => List.nodup_nil
  · rintro p ⟨_, _, _, _, hcarried, _⟩
    exact hcarried.created_nodup
  · exact fun _ _ _ => List.nodup_nil

theorem run_created_not_reserved :
    ∀ f ∈ ((c.run mode start reserved).run r).1.created, f.1 ∉ reserved := by
  apply run_cases (P := fun o => ∀ f ∈ o.created, f.1 ∉ reserved)
  · exact fun _ _ hf => by cases hf
  · rintro p ⟨_, _, _, _, hcarried, _⟩
    exact hcarried.created_not_reserved
  · exact fun _ _ _ _ hf => by cases hf

theorem run_created_accepted :
    ∀ f ∈ ((c.run mode start reserved).run r).1.created, (Language.ofPath f.1).Accepts f.2 := by
  apply run_cases (P := fun o => ∀ f ∈ o.created, (Language.ofPath f.1).Accepts f.2)
  · exact fun _ _ hf => by cases hf
  · rintro p ⟨_, _, _, _, _, hpasses⟩
    exact hpasses.created
  · exact fun _ _ _ _ hf => by cases hf

end SourceChange.FileChange
