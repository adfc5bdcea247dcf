import SourceChange.Proofs.FanOut.Returns
import SourceChange.Proofs.Sessions

/-!
What faults on some paths mean for the others.

The changes of every path are an errand. However the steps of the workers and of the engine alternate, the
engine gets what `ChangeSet.runGroups` says, so a path that hangs or crashes fails by itself and no other
path notices.
-/

namespace SourceChange

open Source

/-- The errand for the changes of a path. -/
def Group.errand (g : Group) (settings : Settings) (around : Circumstances) (files : Files)
    (work : Process PathResult) : Errand PathResult where
  work := work
  fate := around.fate g.path
  timedOut := g.failed (files.lookup g.path) (g.timeout settings)
  crashed text := g.failed (files.lookup g.path) (.crashed text)

namespace ChangeSet

/-- The errands for the paths of a change set. -/
def errands (c : ChangeSet) (settings : Settings) (around : Circumstances) (files : Files)
    (works : List (Process PathResult)) : List (Errand PathResult) :=
  List.zipWith (fun work g => g.errand settings around files work) works (Group.ofChanges c.files)

/-- Whatever the processes that do the work on the paths of a change set (there are some, by
`exists_works`), and whatever the order in which the workers and the engine take their steps, the engine
gets the given results. -/
def FansOut (c : ChangeSet) (settings : Settings) (around : Circumstances) (files : Files) (r : Reader)
    (results : List PathResult) : Prop :=
  ∀ works, c.Works settings files works →
    (FanOut.start (c.errands settings around files works) (settings.workers works.length) r).Returns
      (c.errands settings around files works) (settings.workers works.length) results

/-- The result of a path all of whose changes fail for one reason of a kind: each has its error, the path
holds what it held before, and nothing else comes of it. -/
structure FailsAs (c : ChangeSet) (files : Files) (kind : FailureKind) (result : PathResult) : Prop where
  errors : ∃ failure : Failure, failure.kind = kind ∧
    result.errors = (c.changesOf result.path).map fun _ => ⟨result.path, none, failure⟩
  content : result.content = files.lookup result.path
  unpublished : ∀ a : Assembly, a.add result = { a with errors := a.errors ++ result.errors }

/-- How the result of a path compares with the one that it would have had without faults. -/
def Isolated (c : ChangeSet) (around : Circumstances) (files : Files) (result undisturbed : PathResult) :
    Prop :=
  match around.fate result.path with
  | .finishes => result = undisturbed
  | .hangs => c.FailsAs files .parseError result
  | .crashes _ => c.FailsAs files .internalError result

variable {c : ChangeSet} {settings : Settings} {around : Circumstances} {files : Files} {r : Reader}
  {texts : List String} {works : List (Process PathResult)}

/-- With a reliable reader, the changes of a path come to the result of their errand. -/
theorem runUnder_result (around : Circumstances) {g : Group} {p : Process PathResult}
    (hp : p.CarriesOut (c.groupWork settings files g)) (htexts : p.texts ⊆ texts)
    (hr : r.Reliable texts) :
    let ran := (g.runUnder settings (around.fate g.path) (c.reserved files) (files.lookup g.path)).run r
    ran.1 = (g.errand settings around files p).result ∧ ran.2.Reliable texts := by
  unfold Errand.result Group.errand Group.runUnder
  dsimp only
  cases around.fate g.path with
  | finishes =>
    obtain ⟨hblind, hrun⟩ := hp
    have hran := hblind.run_reliable htexts hr
    rw [hrun] at hran
    exact hran
  | hangs => exact ⟨rfl, hr⟩
  | crashes text => exact ⟨rfl, hr⟩

/-- With a reliable reader, a change set comes to the results of its errands. -/
theorem runGroups_result (around : Circumstances) (hworks : c.Works settings files works)
    (htexts : ∀ p ∈ works, p.texts ⊆ texts) (hr : r.Reliable texts) :
    ((c.runGroups settings around files).run r).1 =
      (c.errands settings around files works).map Errand.result := by
  unfold runGroups errands
  unfold Works at hworks
  generalize Group.ofChanges c.files = groups at hworks ⊢
  induction hworks generalizing r with
  | nil => rfl
  | @cons p g works groups hp _ ih =>
    obtain ⟨hfirst, hrest⟩ := List.forall_mem_cons.mp htexts
    obtain ⟨hresult, hreliable⟩ := runUnder_result around hp hfirst hr
    rw [Reader.run_mapM_cons, List.zipWith_cons_cons, List.map_cons, ← hresult, ih hrest hreliable]

/-- The engine gets what the changes of the paths come to one after the other. -/
theorem fansOut (hr : r.Exact) (hdiscerns : r.Discerns (c.runGroups settings .calm files)) :
    c.FansOut settings around files r ((c.runGroups settings around files).run r).1 := by
  intro works hworks
  have hreliable := (c.runGroups_stepwise settings .calm files).reliable hr hdiscerns
  have htexts := works_texts_subset_runGroups hworks (u := r.uncached) rfl
  rw [runGroups_result around hworks htexts hreliable]
  refine FanOut.returns_start _ (settings.workers_pos _) hreliable fun e he => ?_
  obtain ⟨i, hi, rfl⟩ := List.getElem_of_mem he
  have hwork : ((c.errands settings around files works)[i]).work ∈ works := by
    simp only [errands, List.getElem_zipWith, Group.errand]
    exact List.getElem_mem _
  exact ⟨Process.blind_of_carriesOut hworks _ hwork, htexts _ hwork⟩

theorem changes_of_mem_ofChanges {g : Group} (hg : g ∈ Group.ofChanges c.files) :
    g.changes = c.changesOf g.path := by
  rw [Group.ofChanges_eq] at hg
  obtain ⟨path, -, rfl⟩ := List.mem_map.mp hg
  rfl

theorem outcome_path {g : Group} (hg : g.changes = c.changesOf g.path) {p : Process PathResult}
    (hp : p.CarriesOut (c.groupWork settings files g)) : p.outcome.path = g.path := by
  obtain ⟨path, changes⟩ := g
  obtain rfl : changes = c.changesOf path := hg
  obtain ⟨hblind, hrun⟩ := hp
  have houtcome : p.outcome = ((p.run).run .plain).1 := by rw [hblind.run_uncached rfl]
  rw [houtcome, hrun]
  exact (congrArg (·.1.path) (c.runUnder_group settings .calm files path .plain)).trans
    (c.history_path settings .calm files path .plain)

theorem failsAs_failed {g : Group} (hg : g.changes = c.changesOf g.path) {failure : Failure}
    {kind : FailureKind} (hkind : failure.kind = kind) :
    c.FailsAs files kind (g.failed (files.lookup g.path) failure) := by
  refine ⟨⟨failure, hkind, ?_⟩, rfl, fun a => ?_⟩
  · rw [Group.failed, hg]
  · simp [Assembly.add, Group.failed, PathResult.created, PathResult.changed]

/-- A fault on a path makes its errand fail, and without one its errand is the one without faults. -/
theorem isolated_errand {g : Group} (hg : g.changes = c.changesOf g.path) {p : Process PathResult}
    (hp : p.CarriesOut (c.groupWork settings files g)) :
    c.Isolated around files (g.errand settings around files p).result
      (g.errand settings .calm files p).result := by
  have hpath : (g.errand settings around files p).result.path = g.path := by
    unfold Errand.result
    split
    case h_1 => exact outcome_path hg hp
    case h_2 => rfl
    case h_3 => rfl
  unfold Isolated
  rw [hpath]
  unfold Errand.result
  rw [show (g.errand settings around files p).fate = around.fate g.path from rfl]
  cases around.fate g.path with
  | finishes => rfl
  | hangs => exact failsAs_failed hg rfl
  | crashes text => exact failsAs_failed hg rfl

theorem isolated_errands (hworks : c.Works settings files works) :
    List.Forall₂ (c.Isolated around files) ((c.errands settings around files works).map Errand.result)
      ((c.errands settings .calm files works).map Errand.result) := by
  have hchanges : ∀ g ∈ Group.ofChanges c.files, g.changes = c.changesOf g.path := fun g =>
    changes_of_mem_ofChanges
  unfold errands
  unfold Works at hworks
  generalize Group.ofChanges c.files = groups at hworks hchanges ⊢
  induction hworks with
  | nil => exact .nil
  | cons hp _ ih =>
    obtain ⟨hfirst, hrest⟩ := List.forall_mem_cons.mp hchanges
    exact .cons (isolated_errand hfirst hp) (ih hrest)

theorem history_applied_of_fault (path : String) (r : Reader) :
    let h := ((c.history settings around files path).run r).1
    around.fate h.path ≠ .finishes → h.applied = [] := by
  intro h hfate
  rw [show h.path = path from c.history_path settings around files path r] at hfate
  unfold h history
  split
  case h_1 hfinishes => exact absurd hfinishes hfate
  case h_2 => rfl
  case h_3 => rfl

theorem histories_applied_of_fault (r : Reader) :
    ∀ h ∈ ((c.histories settings around files).run r).1, around.fate h.path ≠ .finishes → h.applied = [] :=
  c.histories_forall settings around files history_applied_of_fault r

/-- Nothing is published at a path with a fault. -/
theorem modified_path_ne_of_fault {path : String} (hpath : path ∈ c.paths)
    (hfate : around.fate path ≠ .finishes) :
    ∀ m ∈ (Assembly.ofResults ((c.runGroups settings around files).run r).1).modified, m.path ≠ path := by
  intro m hm hmpath
  rw [c.runGroups_run] at hm
  rw [← c.histories_paths settings around files r] at hpath
  obtain ⟨h, hh, rfl⟩ := List.mem_map.mp hpath
  have hapart := c.histories_apart settings around files r
  exact (hapart.eq_of_modified_path hh hm hmpath).2.1 (histories_applied_of_fault r h hh hfate)

/-- Whatever paths hang or crash, and however the steps of the workers and of the engine alternate, the
engine gets one result for every path, in the order in which the paths first occur. A path that hangs or
crashes has an error for each of its changes, keeps what it held, and nothing is published for it. Every
other path has the result that it has if no path hangs or crashes. With a cache, this rests on the digests
of the texts that are used. -/
theorem faults_isolated (settings : Settings) (around : Circumstances) (files : Files) {r r' : Reader}
    (hr : r.Exact) (hdiscerns : r.Discerns (c.runGroups settings .calm files)) (hr' : r'.Exact)
    (hdiscerns' : r'.Discerns (c.runGroups settings .calm files)) :
    let results := ((c.runGroups settings around files).run r).1
    let undisturbed := ((c.runGroups settings .calm files).run r').1
    c.FansOut settings around files r results ∧ c.FansOut settings .calm files r' undisturbed ∧
      results.map (·.path) = c.paths ∧ List.Forall₂ (c.Isolated around files) results undisturbed ∧
      ∀ path ∈ c.paths, around.fate path ≠ .finishes →
        ∀ m ∈ (Assembly.ofResults results).modified, m.path ≠ path := by
  intro results undisturbed
  have hstepwise := c.runGroups_stepwise settings .calm files
  refine ⟨fansOut hr hdiscerns, fansOut hr' hdiscerns', ?_, ?_, fun path hpath hfate =>
    modified_path_ne_of_fault hpath hfate⟩
  · unfold results
    rw [c.runGroups_run, List.map_map]
    exact c.histories_paths settings around files r
  · obtain ⟨works, hworks⟩ := c.exists_works settings files
    have hresults := runGroups_result around hworks
      (works_texts_subset_runGroups hworks (u := r.uncached) rfl) (hstepwise.reliable hr hdiscerns)
    have hundisturbed := runGroups_result .calm hworks
      (works_texts_subset_runGroups hworks (u := r'.uncached) rfl) (hstepwise.reliable hr' hdiscerns')
    unfold results undisturbed
    rw [hresults, hundisturbed]
    exact isolated_errands hworks

/-- The same change to three paths. -/
def threeAppends : ChangeSet :=
  ⟨["slow.ts", "broken.ts", "last.ts"].map fun path =>
    ⟨path, .modify, [.text (.append "y;")], none, none⟩, "", none⟩

/-- The work on one path hangs, and on another it crashes. -/
def slowAndBroken : Circumstances :=
  ⟨fun path =>
    if path = "slow.ts" then .hangs
    else if path = "broken.ts" then .crashes "RuntimeError: boom"
    else .finishes, false⟩

/-- A path that waits for the one worker behind a path that hangs and one that crashes is changed. -/
theorem threeAppends_last_changed :
    let files := [("slow.ts", "x;"), ("broken.ts", "x;"), ("last.ts", "x;")]
    let results :=
      ((threeAppends.runGroups .cached slowAndBroken files).run Settings.cached.reader).1
    Settings.cached.workers 3 = 1 ∧
      threeAppends.FansOut .cached slowAndBroken files Settings.cached.reader results ∧
      (Assembly.ofResults results).modified = [⟨"last.ts", "x;\ny;", .modify⟩] ∧
      (Assembly.ofResults results).errors.map (fun e => (e.path, e.index, e.failure.kind)) =
        [("slow.ts", none, .parseError), ("broken.ts", none, .internalError)] := by
  intro files results
  have hruns : Settings.cached.workers 3 = 1 ∧
      (Assembly.ofResults results).modified = [⟨"last.ts", "x;\ny;", .modify⟩] ∧
      (Assembly.ofResults results).errors.map (fun e => (e.path, e.index, e.failure.kind)) =
        [("slow.ts", none, .parseError), ("broken.ts", none, .internalError)] ∧
      Settings.cached.reader.Discerns (threeAppends.runGroups .cached .calm files) := by
    decide +kernel
  obtain ⟨hworkers, hmodified, herrors, hdiscerns⟩ := hruns
  have hisolated := faults_isolated .cached slowAndBroken files (Reader.exact_caching _) hdiscerns
    (Reader.exact_caching _) hdiscerns
  exact ⟨hworkers, hisolated.1, hmodified, herrors⟩

end ChangeSet

end SourceChange
