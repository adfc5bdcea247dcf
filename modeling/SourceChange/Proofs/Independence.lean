import SourceChange.Proofs.PublishedSyntax
import SourceChange.Proofs.Stepwise.Engine

/-!
What the changes of a path depend on.

They depend on the text that they start from and on each other, and on the reserved paths only as far as
files are created. Neither the changes of other paths nor the reader have a part in what they come to.
-/

namespace SourceChange

open Source

theorem Operation.created_eq_nil {op : Operation} {d : Draft} {o : Outcome} {r r' : Reader}
    (happly : (op.apply d).on r = (.ok o, r')) (hop : op.createdFile? d.path = none) :
    o.created = [] := by
  have hpaths := (op.apply_yields d).result r o (by rw [happly])
  rw [hop] at hpaths
  exact List.map_eq_nil_iff.mp hpaths

namespace FileChange

variable {c : FileChange} {mode : RunMode} {reserved reserved' : List String}

/-- Only which paths are reserved matters, not in which order. -/
theorem step_congr_reserved (hreserved : ∀ q, q ∈ reserved ↔ q ∈ reserved') (n : Nat) (op : Operation)
    (p : Progress) : c.step mode reserved n op p = c.step mode reserved' n op p := by
  have hcontains (q : String) : reserved.contains q = reserved'.contains q := by
    rw [Bool.eq_iff_iff, List.contains_iff_mem, List.contains_iff_mem, hreserved]
  unfold step checkCreated
  simp only [hcontains]

/-- For an operation that creates no file it does not matter which paths are reserved. -/
theorem step_congr_of_creates_nothing {op : Operation} (hop : op.createdFile? c.path = none) (n : Nat)
    (p : Progress) : c.step mode reserved n op p = c.step mode reserved' n op p := by
  have hon (r : Reader) :
      (c.step mode reserved n op p).on r = (c.step mode reserved' n op p).on r := by
    rw [step_on, step_on]
    cases mode.interruption n with
    | some message => rfl
    | none =>
      dsimp only
      rcases happly : (op.apply ⟨c.path, c.language, p.text⟩).on r with ⟨e | o, r'⟩
      · rfl
      · dsimp only
        rw [Operation.created_eq_nil happly hop]
        rfl
  exact funext hon

theorem steps_congr {n : Nat} {ops : List Operation} {p : Progress}
    (hstep : ∀ op ∈ ops, ∀ n p, c.step mode reserved n op p = c.step mode reserved' n op p) :
    c.steps mode reserved n ops p = c.steps mode reserved' n ops p := by
  induction ops generalizing n p with
  | nil => rfl
  | cons op rest ih =>
    have hrest (n : Nat) (p : Progress) :
        c.steps mode reserved n rest p = c.steps mode reserved' n rest p :=
      ih fun op hop => hstep op (List.mem_cons_of_mem _ hop)
    rw [steps, steps, hstep op List.mem_cons_self]
    simp only [hrest]

theorem run_congr
    (hstep : ∀ op ∈ c.operations, ∀ n p, c.step mode reserved n op p = c.step mode reserved' n op p)
    (start : Option String) : c.run mode start reserved = c.run mode start reserved' := by
  unfold run runFrom
  simp only [steps_congr hstep]

theorem runAll_congr {changes : List FileChange}
    (hstep : ∀ c ∈ changes, ∀ op ∈ c.operations, ∀ n p,
      c.step mode reserved n op p = c.step mode reserved' n op p) (content : Option String) :
    runAll mode reserved changes content = runAll mode reserved' changes content := by
  induction changes generalizing content with
  | nil => rfl
  | cons c rest ih =>
    rw [runAll, runAll, run_congr (hstep c List.mem_cons_self)]
    simp only [ih fun c hc => hstep c (List.mem_cons_of_mem _ hc)]

/-- What changes of a path come to when they run one after the other. -/
def events (mode : RunMode) (reserved : List String) (changes : List FileChange)
    (content : Option String) : List (FileChange × FileOutcome) :=
  ((runAll mode reserved changes content).run .plain).1

theorem events_cons (c : FileChange) (mode : RunMode) (reserved : List String)
    (rest : List FileChange) (content : Option String) :
    let o := ((c.run mode content reserved).run .plain).1
    events mode reserved (c :: rest) content =
      (c, o) :: events mode reserved rest (History.after content (c, o)) := by
  intro o
  have hreader := (c.run_stepwise mode reserved content).cache_uncached (r := .plain) rfl
  unfold events
  rw [runAll, Reader.run_bind, Reader.run_bind, Reader.run_pure]
  rw [(runAll_stepwise mode reserved rest _).run_uncached hreader]

/-- The later ones of some changes start from what the earlier ones leave. -/
theorem events_append (earlier later : List FileChange) (content : Option String) :
    let before := events mode reserved earlier content
    events mode reserved (earlier ++ later) content =
      before ++ events mode reserved later (before.foldl History.after content) := by
  intro before
  induction earlier generalizing content with
  | nil => rfl
  | cons c rest ih =>
    have hbefore : before = _ := events_cons c mode reserved rest content
    rw [List.cons_append, events_cons, ih, hbefore, List.cons_append, List.foldl_cons]

theorem Carried.warnings_path {text : String} {r r₁ : Reader} {n : Nat} {p : Progress}
    (h : c.Carried mode reserved text r₁ n p r) : ∀ w ∈ p.warnings, w.path = c.path := by
  induction h with
  | start => exact fun w hw => by cases hw
  | next _ _ _ _ _ ih =>
    intro w hw
    obtain hold | hnew := List.mem_append.mp hw
    · exact ih w hold
    · obtain ⟨message, -, rfl⟩ := List.mem_map.mp hnew
      rfl

/-- A change blames its own path, and warns of it. -/
theorem run_paths (c : FileChange) (mode : RunMode) (start : Option String) (reserved : List String)
    (r : Reader) :
    let o := ((c.run mode start reserved).run r).1
    (∀ e ∈ o.error, e.path = c.path) ∧ ∀ w ∈ o.warnings, w.path = c.path := by
  apply run_cases (P := fun o => (∀ e ∈ o.error, e.path = c.path) ∧ ∀ w ∈ o.warnings, w.path = c.path)
  · exact fun _ => ⟨fun e he => (by cases he), fun w hw => by cases hw⟩
  · rintro p ⟨_, _, _, _, hcarried, _⟩
    exact ⟨fun e he => (by cases he), hcarried.warnings_path⟩
  · intro index e summaries
    refine ⟨fun e' he' => ?_, fun w hw => by cases hw⟩
    cases he'
    rfl

theorem events_paths (mode : RunMode) (reserved : List String) {path : String}
    {changes : List FileChange} (hpath : ∀ c ∈ changes, c.path = path) (content : Option String) :
    ∀ e ∈ events mode reserved changes content,
      (∀ error ∈ e.2.error, error.path = path) ∧ ∀ w ∈ e.2.warnings, w.path = path := by
  intro e he
  have hmem : e.1 ∈ changes := runAll_changes changes content .plain ▸ List.mem_map_of_mem he
  have hown := runAll_events
    (P := fun c o => (∀ error ∈ o.error, error.path = c.path) ∧ ∀ w ∈ o.warnings, w.path = c.path)
    (fun c start r => c.run_paths mode start reserved r) changes content .plain e he
  rwa [hpath e.1 hmem] at hown

end FileChange

namespace ChangeSet

variable (c : ChangeSet) (settings : Settings) (around : Circumstances) (fresh : String)
  (files : Files)

/-- The history of a path by itself. -/
def historyOf (path : String) : History := ((c.history settings around files path).run .plain).1

/-- Without a fault, the history of a path is that of its changes. -/
theorem historyOf_of_finishes {path : String} (hfate : around.fate path = .finishes) :
    c.historyOf settings around files path =
      let events := FileChange.events (.plain settings.validateBindings) (c.reserved files)
        (c.changesOf path) (files.lookup path)
      ⟨path, files.lookup path, events, events.flatMap (·.2.error.toList)⟩ := by
  unfold historyOf history
  rw [hfate]
  rfl

theorem historyOf_path (path : String) : (c.historyOf settings around files path).path = path :=
  c.history_path settings around files path .plain

/-- All that is reported of a path has that path. -/
theorem historyOf_paths (path : String) :
    (∀ e ∈ (c.historyOf settings around files path).errors, e.path = path) ∧
      ∀ w ∈ (c.historyOf settings around files path).toResult.warnings, w.path = path := by
  cases hfate : around.fate path with
  | finishes =>
    have hpath : ∀ c' ∈ c.changesOf path, c'.path = path := fun c' hc' => by
      simpa using (List.mem_filter.mp hc').2
    have hevents := FileChange.events_paths (.plain settings.validateBindings) (c.reserved files)
      hpath (files.lookup path)
    rw [c.historyOf_of_finishes settings around files hfate]
    constructor
    · intro error herror
      obtain ⟨e, he, hmem⟩ := List.mem_flatMap.mp herror
      exact (hevents e he).1 error (Option.mem_toList.mp hmem)
    · intro w hw
      obtain ⟨o, ho, hmem⟩ := List.mem_flatMap.mp hw
      obtain ⟨e, he, rfl⟩ := List.mem_map.mp (List.mem_filter.mp ho).1
      exact (hevents e he).2 w hmem
  | hangs | crashes text =>
    unfold historyOf history
    rw [hfate]
    refine ⟨fun e he => ?_, fun w hw => by cases hw⟩
    obtain ⟨_, -, rfl⟩ := List.mem_map.mp he
    rfl

theorem history_stepwise (path : String) :
    Reader.Stepwise (c.history settings around files path) := by
  unfold history
  split
  · exact .bind (FileChange.runAll_stepwise ..) fun events => .pure _
  · exact .pure _
  · exact .pure _

variable {c settings around fresh files} {r : Reader}

/-- Whatever the reader, each path has the history that it has by itself, if the reader tells texts
apart. -/
theorem histories_of_discerns (hr : r.Exact) (hr' : r.Discerns (c.apply settings around fresh files)) :
    ((c.histories settings around files).run r).1 = c.paths.map (c.historyOf settings around files) := by
  have hstepwise := Reader.Stepwise.mapM (c.history_stepwise settings around files) c.paths
  have hdiscerns : r.Discerns (c.histories settings around files) := fun hcache a ha b hb =>
    have hread := (c.histories_leads_apply settings around fresh files r.uncached).texts_subset
    hr' hcache a (hread ha) b (hread hb)
  rw [histories, hstepwise.run_eq hr hdiscerns]
  exact Reader.Stepwise.mapM_uncached (c.history_stepwise settings around files) c.paths rfl

/-- A change set is put together from the histories that its paths have by themselves. -/
theorem apply_of_discerns (hr : r.Exact) (hr' : r.Discerns (c.apply settings around fresh files)) :
    let result := ((c.apply settings around fresh files).run r).1
    let a := Assembly.ofResults
      ((c.paths.map (c.historyOf settings around files)).map History.toResult)
    result.modified = a.modified ∧ result.errors = a.errors ∧ result.warnings = a.warnings := by
  intro result a
  have hrun : ((c.runGroups settings around files).run r).1 =
      (c.paths.map (c.historyOf settings around files)).map History.toResult := by
    rw [runGroups_run, histories_of_discerns hr hr']
  rw [show result = _ from congrArg Prod.fst (c.apply_run settings around fresh files r)]
  dsimp only
  rw [hrun]
  exact ⟨rfl, rfl, rfl⟩

end ChangeSet

/-- No two of some histories created the same file. -/
def History.CreateApart (all : List History) : Prop :=
  all.Pairwise fun h k => ∀ q, h.creates q = true → k.creates q = true → False

theorem History.CreateApart.not_clashes {all : List History} {h : History}
    (hapart : CreateApart (all ++ [h])) : ¬ h.clashes all = true := by
  obtain ⟨-, -, hfree⟩ := List.pairwise_append.mp hapart
  rw [clashes_iff]
  rintro ⟨q, hcreates, k, hk, hcreates'⟩
  exact hfree k hk h List.mem_cons_self q hcreates' hcreates

theorem History.CreateApart.standing_eq {all : List History} (hapart : CreateApart all) :
    standing all = all := by
  induction all using List.reverseRecOn with
  | nil => rfl
  | append_singleton all h ih =>
    obtain ⟨hall, -, -⟩ := List.pairwise_append.mp hapart
    rw [standing_append, ih hall, if_neg hapart.not_clashes]

namespace Assembly

/-- What is reported of a history that does not clash is reported in the end. -/
theorem Gathers.add_reports {files : Files} {reserved : List String} {a : Assembly}
    {kept : List History} {h : History} (hg : a.Gathers kept) (hran : h.Ran files reserved)
    (hclash : ¬ h.clashes kept = true) :
    (a.add h.toResult).errors = a.errors ++ h.errors ∧
      (a.add h.toResult).warnings = a.warnings ++ h.toResult.warnings := by
  have hnew := Option.not_isSome_iff_eq_none.mp (mt (hg.clash_iff hran).mp hclash)
  unfold Assembly.add
  dsimp only
  rw [hnew]
  dsimp only
  split
  case isTrue => exact ⟨rfl, rfl⟩
  case isFalse hchanged =>
    refine ⟨rfl, ?_⟩
    have hnone : h.toResult.outcomes.filter (·.succeeded) = [] := by
      rw [List.filter_eq_nil_iff]
      intro o ho hsucceeded
      exact hchanged (List.any_eq_true.mpr ⟨o, ho, hsucceeded⟩)
    rw [PathResult.warnings, hnone, List.flatMap_nil, List.append_nil]

/-- What is put together from histories that do not clash is theirs, one after the other. -/
theorem ofResults_of_createApart {files : Files} {reserved : List String} {all : List History}
    (hran : ∀ h ∈ all, h.Ran files reserved) (hapart : History.CreateApart all) :
    let a := ofResults (all.map History.toResult)
    a.modified = all.flatMap (·.entries) ∧ a.errors = all.flatMap (·.errors) ∧
      a.warnings = all.flatMap (·.toResult.warnings) := by
  intro a
  refine ⟨?_, ?_⟩
  · rw [show a.modified = _ from (ofResults_gathers hran).modified, hapart.standing_eq]
  -- a path is added to what those before it came to, so the induction is from the end
  induction all using List.reverseRecOn with
  | nil => exact ⟨rfl, rfl⟩
  | append_singleton all h ih =>
    obtain ⟨hall, -, -⟩ := List.pairwise_append.mp hapart
    have hbefore : ∀ k ∈ all, k.Ran files reserved := fun k hk => hran k (List.mem_append_left _ hk)
    have hgathers := ofResults_gathers hbefore
    rw [History.CreateApart.standing_eq hall] at hgathers
    obtain ⟨herrors, hwarnings⟩ :=
      hgathers.add_reports (hran h (List.mem_append_right _ List.mem_cons_self)) hapart.not_clashes
    have ha : a = (ofResults (all.map History.toResult)).add h.toResult := by
      simp only [a, ofResults, List.map_append, List.foldl_append, List.map_cons, List.map_nil,
        List.foldl_cons, List.foldl_nil]
    rw [ha, herrors, hwarnings, (ih hbefore hall).1, (ih hbefore hall).2]
    simp

end Assembly

/-- The result of a change set whose paths do not create the same files is what its paths come to by
themselves, one after the other. -/
theorem ChangeSet.apply_of_createApart {c : ChangeSet} {settings : Settings} {around : Circumstances}
    {fresh : String} {files : Files} {r : Reader} (hr : r.Exact)
    (hr' : r.Discerns (c.apply settings around fresh files))
    (hapart : History.CreateApart (c.paths.map (c.historyOf settings around files))) :
    let result := ((c.apply settings around fresh files).run r).1
    let history := c.historyOf settings around files
    result.modified = c.paths.flatMap (fun path => (history path).entries) ∧
      result.errors = c.paths.flatMap (fun path => (history path).errors) ∧
      result.warnings = c.paths.flatMap fun path => (history path).toResult.warnings := by
  intro result history
  have hran : ∀ h ∈ c.paths.map history, h.Ran files (c.reserved files) := by
    intro h hh
    obtain ⟨path, -, rfl⟩ := List.mem_map.mp hh
    exact c.history_ran settings around files path .plain
  obtain ⟨hmodified, herrors, hwarnings⟩ := apply_of_discerns hr hr'
  obtain ⟨hmodified', herrors', hwarnings'⟩ := Assembly.ofResults_of_createApart hran hapart
  rw [List.flatMap_map] at hmodified' herrors' hwarnings'
  exact ⟨hmodified.trans hmodified', herrors.trans herrors', hwarnings.trans hwarnings'⟩

end SourceChange
