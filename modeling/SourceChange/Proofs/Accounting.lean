import SourceChange.Proofs.Independence

/-!
What is reported of a change set.

Every change that was not carried out has one error, and every path that is withdrawn has one more. Only
the paths that are not withdrawn have a part in the modified files and in the warnings.
-/

namespace SourceChange

open Source

/-- An error explains what became of a change: it has the path of the change and, if the change has an
outcome, it is the error of that. -/
def FileChange.ExplainedBy (e : FileChange × Option FileOutcome) (error : FileError) : Prop :=
  error.path = e.1.path ∧ ∀ o ∈ e.2, o.error = some error

namespace ChangeSet

/-- The changes of a path with their outcomes, in the order in which they were submitted. Where the work
on the path broke off there are no outcomes. -/
def record (c : ChangeSet) (h : History) : List (FileChange × Option FileOutcome) :=
  (c.changesOf h.path).mapIdx fun n change => (change, (h.events[n]?).map Prod.snd)

/-- The changes of a path that were not carried out. -/
def unapplied (c : ChangeSet) (h : History) : List (FileChange × Option FileOutcome) :=
  (c.record h).filter fun e => !e.2.any (·.succeeded)

variable (c : ChangeSet) (settings : Settings) (around : Circumstances) (files : Files)

theorem record_of_events {h : History} (hevents : h.events.map Prod.fst = c.changesOf h.path) :
    c.record h = h.events.map fun e => (e.1, some e.2) := by
  unfold record
  rw [← hevents]
  refine List.ext_getElem? fun n => ?_
  rw [List.getElem?_mapIdx, List.getElem?_map, List.getElem?_map]
  cases h.events[n]? <;> rfl

theorem record_of_brokenOff {h : History} (hevents : h.events = []) :
    c.record h = (c.changesOf h.path).map fun change => (change, none) := by
  unfold record
  refine List.ext_getElem? fun n => ?_
  rw [List.getElem?_mapIdx, List.getElem?_map, hevents, List.getElem?_nil]
  rfl

end ChangeSet

/-- The errors of outcomes explain the changes that were not carried out, one by one. -/
theorem FileChange.explainedBy_errors {events : List (FileChange × FileOutcome)}
    (hpaths : ∀ e ∈ events, ∀ error ∈ e.2.error, error.path = e.1.path) :
    List.Forall₂ ExplainedBy
      ((events.map fun e => (e.1, some e.2)).filter fun e => !e.2.any (·.succeeded))
      (events.flatMap (·.2.error.toList)) := by
  induction events with
  | nil => exact .nil
  | cons e rest ih =>
    have hrest := ih fun e he => hpaths e (List.mem_cons_of_mem _ he)
    rw [List.map_cons, List.filter_cons, List.flatMap_cons]
    cases herror : e.2.error with
    | none =>
      have hsucceeded : e.2.succeeded = true := by rw [FileOutcome.succeeded, herror]; rfl
      simpa [hsucceeded] using hrest
    | some error =>
      have hfailed : e.2.succeeded = false := by rw [FileOutcome.succeeded, herror]; rfl
      have hexplained : ExplainedBy (e.1, some e.2) error := by
        refine ⟨hpaths e List.mem_cons_self error herror, fun o ho => ?_⟩
        cases ho
        exact herror
      simpa [hfailed] using List.Forall₂.cons hexplained hrest

namespace ChangeSet

variable (c : ChangeSet) (settings : Settings) (around : Circumstances) (files : Files)

/-- The errors of a path explain its changes that were not carried out, and no others, in the order in
which they were submitted. -/
theorem history_explained (path : String) (r : Reader) :
    let h := ((c.history settings around files path).run r).1
    List.Forall₂ FileChange.ExplainedBy (c.unapplied h) h.errors := by
  obtain ⟨failure, hrun⟩ | ⟨ran, hran, hrun⟩ := c.history_run settings around files path r
  · have hpaths : ∀ change ∈ c.changesOf path, change.path = path := fun change hchange => by
      simpa using (List.mem_filter.mp hchange).2
    rw [hrun]
    dsimp only
    rw [unapplied, c.record_of_brokenOff rfl, brokenOff]
    dsimp only
    rw [List.filter_eq_self.mpr fun e he => by obtain ⟨_, -, rfl⟩ := List.mem_map.mp he; rfl,
      List.forall₂_map_left_iff, List.forall₂_map_right_iff, List.forall₂_same]
    exact fun change hchange => ⟨(hpaths change hchange).symm, fun o ho => by cases ho⟩
  · have hchanges : ran.1.map Prod.fst = c.changesOf path := by
      rw [hran]
      exact FileChange.runAll_changes ..
    have hpaths : ∀ e ∈ ran.1, ∀ error ∈ e.2.error, error.path = e.1.path := by
      rw [hran]
      exact FileChange.runAll_events (P := fun change o => ∀ error ∈ o.error, error.path = change.path)
        (fun change start r => (change.run_paths _ start _ r).1) _ _ _
    rw [hrun]
    dsimp only
    rw [unapplied, c.record_of_events hchanges]
    exact FileChange.explainedBy_errors hpaths

/-- The warnings of a path have that path. -/
theorem history_warnings_path (path : String) (r : Reader) :
    let h := ((c.history settings around files path).run r).1
    ∀ w ∈ h.toResult.warnings, w.path = h.path := by
  intro h
  rw [show h.path = path from c.history_path settings around files path r]
  unfold h
  obtain ⟨failure, hrun⟩ | ⟨ran, hran, hrun⟩ := c.history_run settings around files path r
  · rw [hrun]
    exact fun w hw => absurd hw List.not_mem_nil
  · rw [hrun, hran]
    intro w hw
    obtain ⟨o, ho, hw⟩ := List.mem_flatMap.mp hw
    obtain ⟨e, he, rfl⟩ := List.mem_map.mp (List.mem_filter.mp ho).1
    have hown := FileChange.runAll_events
      (P := fun change o => ∀ w ∈ o.warnings, w.path = change.path)
      (fun change start r => (change.run_paths _ start _ r).2) _ _ _ e he w hw
    have hmem : e.1 ∈ c.changesOf path := by
      rw [← FileChange.runAll_changes (c.changesOf path) (files.lookup path) r]
      exact List.mem_map_of_mem he
    rw [hown]
    simpa using (List.mem_filter.mp hmem).2

/-- The errors of every path explain its changes that were not carried out. -/
theorem histories_explained (r : Reader) :
    ∀ h ∈ ((c.histories settings around files).run r).1,
      List.Forall₂ FileChange.ExplainedBy (c.unapplied h) h.errors :=
  c.histories_forall settings around files (c.history_explained settings around files) r

theorem histories_warnings_path (r : Reader) :
    ∀ h ∈ ((c.histories settings around files).run r).1, ∀ w ∈ h.toResult.warnings, w.path = h.path :=
  c.histories_forall settings around files (c.history_warnings_path settings around files) r

end ChangeSet

/-- What is reported of one of several histories: its own errors and, if it is withdrawn, a file that it
created and that a history which is not withdrawn created as well. -/
def History.Reported (all : List History) (h : History) (report : List FileError) : Prop :=
  h ∈ standing all ∧ report = h.errors ∨
    h ∉ standing all ∧ ∃ q, h.creates q = true ∧ ∃ k ∈ standing all, k.creates q = true ∧
      report = h.errors ++ [⟨h.path, none, .createdTwice q k.path h.path⟩]

theorem forall_mem_iff_of_forall₂ {α β : Type} {R : α → β → Prop} {P : β → Prop} {Q : α → Prop}
    {as : List α} {bs : List β} (h : List.Forall₂ R as bs)
    (hR : ∀ a b, R a b → (P b ↔ Q a)) : (∀ b ∈ bs, P b) ↔ ∀ a ∈ as, Q a := by
  induction h with
  | nil => simp
  | cons hab _ ih => simp only [List.forall_mem_cons, hR _ _ hab, ih]

namespace History

variable {all : List History} {h k : History} {report : List FileError}

theorem standing_subset_append (all : List History) (k : History) :
    standing all ⊆ standing (all ++ [k]) := by
  rw [standing_append]
  split
  · exact List.Subset.refl _
  · exact List.subset_append_left _ _

/-- A later history does not change what is reported of the earlier ones. -/
theorem Reported.append (hreport : h.Reported all report) (hne : h.path ≠ k.path) :
    h.Reported (all ++ [k]) report := by
  have hsub := standing_subset_append all k
  have hmem : h ∈ standing (all ++ [k]) → h ∈ standing all := by
    rw [standing_append]
    split
    case isTrue => exact id
    case isFalse =>
      intro hh
      obtain hh | hh := List.mem_append.mp hh
      · exact hh
      · exact absurd (congrArg path (List.mem_singleton.mp hh)) hne
  obtain ⟨hh, hown⟩ | ⟨hh, q, hcreates, k', hk', hconflict⟩ := hreport
  · exact .inl ⟨hsub hh, hown⟩
  · exact .inr ⟨mt hmem hh, q, hcreates, k', hsub hk', hconflict⟩

theorem Reported.eq_nil_iff (hreport : h.Reported all report) :
    report = [] ↔ h ∈ standing all ∧ h.errors = [] := by
  obtain ⟨hh, rfl⟩ | ⟨hh, q, -, k, -, -, rfl⟩ := hreport
  · simp [hh]
  · simp [hh]

end History

/-- What is put together from histories: what is reported of each of them, the warnings of those that are
not withdrawn, and a table that names one of these for every created file. -/
structure Assembly.Tells (a : Assembly) (all : List History) : Prop where
  errors : ∃ reports, a.errors = reports.flatten ∧ List.Forall₂ (History.Reported all) all reports
  warnings : a.warnings = (History.standing all).flatMap (·.toResult.warnings)
  creators : ∀ q other, a.creators.lookup q = some other →
    ∃ k ∈ History.standing all, k.path = other ∧ k.creates q = true

namespace Assembly

variable {files : Files} {reserved : List String} {a : Assembly} {all : List History} {h : History}

/-- The table finds the path that created a file of a history that clashes. -/
theorem Gathers.exists_clash (hg : a.Gathers (History.standing all)) (hran : h.Ran files reserved)
    (hclash : h.clashes (History.standing all) = true) :
    ∃ q other, h.creates q = true ∧ a.creators.lookup q = some other ∧
      a.add h.toResult =
        { a with errors := a.errors ++ h.errors ++ [⟨h.path, none, .createdTwice q other h.path⟩] } := by
  obtain ⟨⟨q, other⟩, hfound⟩ := Option.isSome_iff_exists.mp ((hg.clash_iff hran).mpr hclash)
  obtain ⟨f, hf, hlookup⟩ := List.exists_of_findSome?_eq_some hfound
  obtain ⟨_, hother, heq⟩ := Option.map_eq_some_iff.mp hlookup
  cases heq
  have hcreates : h.creates f.1 = true := by
    rw [History.creates, hran.mem_toResult_created.mp hf]
    rfl
  refine ⟨f.1, other, hcreates, hother, ?_⟩
  unfold Assembly.add
  dsimp only
  rw [hfound]
  rfl

/-- The table of who created what, with a history that does not clash. -/
theorem Gathers.add_creators (hg : a.Gathers (History.standing all)) (hran : h.Ran files reserved)
    (hclash : ¬ h.clashes (History.standing all) = true) :
    (a.add h.toResult).creators =
      a.creators ++ h.toResult.created.map fun (p, _) => (p, h.path) := by
  have hnew := Option.not_isSome_iff_eq_none.mp (mt (hg.clash_iff hran).mp hclash)
  unfold Assembly.add
  dsimp only
  rw [hnew]
  dsimp only
  split <;> rfl

/-- One result more is one report more. -/
theorem Tells.add (htells : a.Tells all) (hg : a.Gathers (History.standing all))
    (hran : h.Ran files reserved) (hnew : ∀ k ∈ all, k.path ≠ h.path) :
    (a.add h.toResult).Tells (all ++ [h]) := by
  obtain ⟨⟨reports, herrors, hreports⟩, hwarnings, hcreators⟩ := htells
  -- the reports on the histories before stay as they are
  have hbefore : List.Forall₂ (History.Reported (all ++ [h])) all reports := by
    refine List.Forall₂.imp (fun k report hk => ?_) ((List.forall₂_and_left _ _).mpr ⟨hnew, hreports⟩)
    exact hk.2.append hk.1
  have hreported {report : List FileError} (hreport : h.Reported (all ++ [h]) report) :
      (∃ reports', a.errors ++ report = reports'.flatten ∧
        List.Forall₂ (History.Reported (all ++ [h])) (all ++ [h]) reports') := by
    refine ⟨reports ++ [report], ?_, List.rel_append hbefore (.cons hreport .nil)⟩
    rw [herrors, List.flatten_append, List.flatten_cons, List.flatten_nil, List.append_nil]
  by_cases hclash : h.clashes (History.standing all) = true
  · have hstanding : History.standing (all ++ [h]) = History.standing all := by
      rw [History.standing_append, if_pos hclash]
    obtain ⟨q, other, hcreates, hlookup, hadd⟩ := hg.exists_clash hran hclash
    obtain ⟨k, hk, rfl, hkq⟩ := hcreators q other hlookup
    have hwithdrawn : h ∉ History.standing (all ++ [h]) := fun hh =>
      hnew h ((History.standing_sublist all).subset (hstanding ▸ hh)) rfl
    rw [hadd, List.append_assoc]
    refine ⟨hreported (.inr ⟨hwithdrawn, q, hcreates, k, hstanding ▸ hk, hkq, rfl⟩), ?_, ?_⟩
    · rw [hstanding]
      exact hwarnings
    · rw [hstanding]
      exact hcreators
  · have hstanding : History.standing (all ++ [h]) = History.standing all ++ [h] := by
      rw [History.standing_append, if_neg hclash]
    obtain ⟨haddErrors, haddWarnings⟩ := hg.add_reports hran hclash
    have hstays : h ∈ History.standing (all ++ [h]) := by simp [hstanding]
    refine ⟨haddErrors ▸ hreported (.inl ⟨hstays, rfl⟩), ?_, ?_⟩
    · rw [haddWarnings, hwarnings, hstanding, List.flatMap_append, List.flatMap_singleton]
    · intro q other hlookup
      rw [hg.add_creators hran hclash, List.lookup_append, Option.or_eq_some_iff] at hlookup
      obtain hold | ⟨-, hown⟩ := hlookup
      · obtain ⟨k, hk, hpath, hkq⟩ := hcreators q other hold
        exact ⟨k, by simp [hstanding, hk], hpath, hkq⟩
      · obtain ⟨f, hf, heq⟩ := List.mem_map.mp (Files.mem_of_lookup hown)
        cases heq
        refine ⟨h, hstays, rfl, ?_⟩
        rw [History.creates, hran.mem_toResult_created.mp hf]
        rfl

/-- The engine reports on every history. -/
theorem ofResults_tells (hapart : History.Apart files reserved all) :
    (ofResults (all.map History.toResult)).Tells all := by
  -- a history is added to what those before it came to, so the induction is from the end
  induction all using List.reverseRecOn with
  | nil => exact ⟨⟨[], rfl, .nil⟩, rfl, fun q other hlookup => by cases hlookup⟩
  | append_singleton all h ih =>
    obtain ⟨hran, hpaths, hreserved⟩ := hapart
    rw [List.map_append, List.nodup_append] at hpaths
    have hbefore : History.Apart files reserved all :=
      ⟨fun k hk => hran k (List.mem_append_left _ hk), hpaths.1,
        fun k hk => hreserved k (List.mem_append_left _ hk)⟩
    have hnew : ∀ k ∈ all, k.path ≠ h.path := fun k hk =>
      hpaths.2.2 _ (List.mem_map_of_mem hk) _ (by simp)
    have hstep := (ih hbefore).add (ofResults_gathers hbefore.ran)
      (hran h (List.mem_append_right _ List.mem_cons_self)) hnew
    rw [List.map_append, ofResults, List.foldl_append]
    exact hstep

end Assembly

namespace ChangeSet

variable (c : ChangeSet) (settings : Settings) (around : Circumstances) (fresh : String)
  (files : Files) (r : Reader)

/-- What a change set reports and publishes is put together from the histories of its paths. -/
theorem apply_reports :
    let all := ((c.histories settings around files).run r).1
    let result := ((c.apply settings around fresh files).run r).1
    (∃ reports, result.errors = reports.flatten ∧ List.Forall₂ (History.Reported all) all reports) ∧
      result.modified = (History.standing all).flatMap (·.entries) ∧
      result.warnings = (History.standing all).flatMap (·.toResult.warnings) := by
  intro all result
  have hapart := c.histories_apart settings around files r
  have htells := Assembly.ofResults_tells hapart
  have hresult : result = _ := congrArg Prod.fst (c.apply_run settings around fresh files r)
  rw [runGroups_run] at hresult
  rw [hresult]
  exact ⟨htells.errors, (Assembly.ofResults_gathers hapart.ran).modified, htells.warnings⟩

/-- Only if there is nothing to report there is advice. -/
theorem apply_suggestions (hfailed : ((c.apply settings around fresh files).run r).1.success = false) :
    ((c.apply settings around fresh files).run r).1.suggestions = [] := by
  unfold ApplyResult.success at hfailed
  rw [apply_run] at hfailed ⊢
  dsimp only at hfailed ⊢
  rw [hfailed]
  rfl

/-- There is nothing to report exactly if every change was carried out and no path is withdrawn. -/
theorem errors_eq_nil_iff :
    let all := ((c.histories settings around files).run r).1
    ((c.apply settings around fresh files).run r).1.errors = [] ↔
      ∀ h ∈ all, h ∈ History.standing all ∧ c.unapplied h = [] := by
  intro all
  obtain ⟨⟨reports, herrors, hreports⟩, -⟩ := c.apply_reports settings around fresh files r
  have hnone {h : History} (hh : h ∈ all) : h.errors = [] ↔ c.unapplied h = [] := by
    have hlength := (c.histories_explained settings around files r h hh).length_eq
    rw [← List.length_eq_zero_iff, ← hlength, List.length_eq_zero_iff]
  have hreport := forall_mem_iff_of_forall₂ (P := (· = []))
    (Q := fun h => h ∈ History.standing all ∧ h.errors = []) hreports fun h report => (·.eq_nil_iff)
  rw [herrors, List.flatten_eq_nil_iff, hreport]
  exact forall₂_congr fun h hh => by rw [hnone hh]

/-- The errors of a change set are those of its paths, one after the other: one error for every change of
the path that was not carried out, in the order in which they were submitted, and one more if the path is
withdrawn. The change set succeeds if there are none. A path that is withdrawn has no part in the modified
files and in the warnings, and unless the change set succeeds there is no advice. -/
theorem errors_account_for_changes :
    let all := ((c.histories settings around files).run r).1
    let result := ((c.apply settings around fresh files).run r).1
    all.map (·.path) = c.paths ∧
      (∃ reports, result.errors = reports.flatten ∧
        List.Forall₂ (History.Reported all) all reports) ∧
      (∀ h ∈ all, List.Forall₂ FileChange.ExplainedBy (c.unapplied h) h.errors) ∧
      (result.success = true ↔ result.errors = []) ∧
      (result.success = true ↔ ∀ h ∈ all, h ∈ History.standing all ∧ c.unapplied h = []) ∧
      result.modified = (History.standing all).flatMap (·.entries) ∧
      result.warnings = (History.standing all).flatMap (·.toResult.warnings) ∧
      (∀ h ∈ all, h ∉ History.standing all →
        (∀ m ∈ result.modified, m.path ≠ h.path) ∧ ∀ w ∈ result.warnings, w.path ≠ h.path) ∧
      (result.success = false → result.suggestions = []) := by
  intro all result
  obtain ⟨herrors, hmodified, hwarnings⟩ := c.apply_reports settings around fresh files r
  have hapart := c.histories_apart settings around files r
  have hsuccess : result.success = true ↔ result.errors = [] := List.isEmpty_iff
  refine ⟨c.histories_paths settings around files r, herrors,
    c.histories_explained settings around files r, hsuccess,
    hsuccess.trans (c.errors_eq_nil_iff settings around fresh files r), hmodified, hwarnings, ?_,
    c.apply_suggestions settings around fresh files r⟩
  intro h hh hwithdrawn
  constructor
  · intro m hm hpath
    rw [show result.modified = _ from c.apply_modified settings around fresh files r] at hm
    exact hwithdrawn (hapart.eq_of_modified_path hh hm hpath).1
  · intro w hw hpath
    rw [show result.warnings = _ from hwarnings] at hw
    obtain ⟨k, hk, hw⟩ := List.mem_flatMap.mp hw
    have hkall := (History.standing_sublist all).subset hk
    have hkh : k = h := List.inj_on_of_nodup_map hapart.paths hkall hh
      ((c.histories_warnings_path settings around files r k hkall w hw).symm.trans hpath)
    exact hwithdrawn (hkh ▸ hk)

end ChangeSet

end SourceChange
