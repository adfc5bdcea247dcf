import SourceChange.Proofs.Independence
import SourceChange.Proofs.Pool

/-!
What an engine does in the course of several change sets.

For every change set the paths are given to a pool of workers which share the reader, and with it the
cache; the results are put together when all of them have finished, and then there may be advice. What
becomes of the change sets depends on none of this.
-/

namespace SourceChange

open Source

/-- The number of workers for some paths. -/
def Settings.workers (settings : Settings) (paths : Nat) : Nat :=
  max 1 (min (if settings.parallel then settings.maxWorkers.toNat else 1) paths)

theorem Settings.workers_pos (settings : Settings) (paths : Nat) : 0 < settings.workers paths :=
  Nat.le_max_left 1 _

/-- The result of a change set whose results are put together. -/
def ChangeSet.resultOf (c : ChangeSet) (a : Assembly) (suggestions : List Advice.Suggestion)
    (fresh : String) : ApplyResult :=
  ⟨a.modified, a.errors, a.warnings, suggestions, some (c.id.getD fresh)⟩

/-- The work on the changes of a path that meets with no fault. -/
def ChangeSet.groupWork (c : ChangeSet) (settings : Settings) (files : Files) (g : Group) :
    StateM Reader PathResult :=
  g.runUnder settings .finishes (c.reserved files) (files.lookup g.path)

/-- Processes for the paths of a change set, each of which does the work on its path. -/
def ChangeSet.Works (c : ChangeSet) (settings : Settings) (files : Files)
    (works : List (Process PathResult)) : Prop :=
  List.Forall₂ (fun p g => p.CarriesOut (c.groupWork settings files g)) works (Group.ofChanges c.files)

namespace Settings

/-- What becomes of the advice. There is none if there were errors, and otherwise whoever gives it may
fail at any step. -/
inductive Advises (settings : Settings) (a : Assembly) (r : Reader) :
    List Advice.Suggestion → Reader → Prop where
  | skipped (herrors : a.errors ≠ []) : Advises settings a r [] r
  | given {p : Process (List Advice.Suggestion)} {suggestions : List Advice.Suggestion} {r' : Reader}
      (herrors : a.errors = []) (hp : p.CarriesOut (ChangeSet.advise settings .calm a.modified))
      (hsteps : (Thread.ready p).Steps r (.ready (.done suggestions)) r') :
      Advises settings a r suggestions r'
  | failed {p : Process (List Advice.Suggestion)} {t : Thread (List Advice.Suggestion)} {r' : Reader}
      (herrors : a.errors = []) (hp : p.CarriesOut (ChangeSet.advise settings .calm a.modified))
      (hsteps : (Thread.ready p).Steps r t r') : Advises settings a r [] r'

/-- Change sets that an engine applies one after the other, without faults, and their results. -/
inductive Session (settings : Settings) : Files → Reader → List ChangeSet → List ApplyResult → Prop where
  | nil {files : Files} {r : Reader} : Session settings files r [] []
  | cons {files : Files} {r r₁ r₂ : Reader} {c : ChangeSet} {rest : List ChangeSet}
      {works : List (Process PathResult)} {ran : List PathResult}
      {suggestions : List Advice.Suggestion} {results : List ApplyResult} (fresh : String)
      (hworks : c.Works settings files works)
      (hruns : Pool.Runs (settings.workers works.length) works r ran r₁)
      (hadvice : settings.Advises (Assembly.ofResults ran) r₁ suggestions r₂)
      (hrest : Session settings
        ((c.resultOf (Assembly.ofResults ran) suggestions fresh).publish files) r₂ rest results) :
      Session settings files r (c :: rest)
        (c.resultOf (Assembly.ofResults ran) suggestions fresh :: results)

end Settings

namespace Source.Process

variable {α β : Type} {ps : List (Process α)} {r : Reader}

theorem mapM_eq_of_carriesOut {f : β → StateM Reader α} {bs : List β}
    (h : List.Forall₂ (fun p b => p.CarriesOut (f b)) ps bs) : bs.mapM f = ps.mapM run := by
  induction h with
  | nil => rfl
  | cons hp _ ih => rw [List.mapM_cons, List.mapM_cons, ih, hp.2]

theorem map_outcome_of_carriesOut {f : β → StateM Reader α} {bs : List β}
    (h : List.Forall₂ (fun p b => p.CarriesOut (f b)) ps bs) :
    ps.map outcome = bs.map fun b => ((f b).run .plain).1 := by
  induction h with
  | nil => rfl
  | cons hp _ ih => rw [List.map_cons, List.map_cons, ih, ← hp.2, hp.1.run_uncached rfl]

theorem blind_of_carriesOut {f : β → StateM Reader α} {bs : List β}
    (h : List.Forall₂ (fun p b => p.CarriesOut (f b)) ps bs) : ∀ p ∈ ps, p.Blind := by
  induction h with
  | nil => exact fun p hp => by cases hp
  | cons hp _ ih => exact List.forall_mem_cons.mpr ⟨hp.1, ih⟩

/-- Without a cache, processes come to their outcomes one after the other and read all texts that they
ask for. -/
theorem mapM_run_uncached (hblind : ∀ p ∈ ps, p.Blind) (hr : r.cache = none) :
    StateT.run (ps.mapM run) r =
      (ps.map outcome, ⟨(ps.flatMap texts).reverse ++ r.texts, none⟩) := by
  induction ps generalizing r with
  | nil =>
    obtain ⟨texts, cache⟩ := r
    cases hr
    rfl
  | cons p rest ih =>
    rw [Reader.run_mapM_cons, (hblind p List.mem_cons_self).run_uncached hr,
      ih (fun p hp => hblind p (List.mem_cons_of_mem _ hp)) rfl, List.map_cons, List.flatMap_cons,
      List.reverse_append, List.append_assoc]

end Source.Process

namespace ChangeSet

variable {c : ChangeSet} {settings : Settings} {files : Files} {fresh : String} {u : Reader}

theorem exists_works (c : ChangeSet) (settings : Settings) (files : Files) :
    ∃ works, c.Works settings files works := by
  choose work hwork using fun g : Group =>
    g.runUnder_stepwise settings .finishes (c.reserved files) (files.lookup g.path)
  refine ⟨(Group.ofChanges c.files).map work, ?_⟩
  unfold Works
  rw [List.forall₂_map_left_iff, List.forall₂_same]
  exact fun g _ => hwork g

/-- What is put together when every path is worked on by itself. -/
def settled (c : ChangeSet) (settings : Settings) (files : Files) : Assembly :=
  .ofResults ((Group.ofChanges c.files).map fun g => ((c.groupWork settings files g).run .plain).1)

/-- Of the settings only whether names that are declared twice are refused matters. -/
theorem settled_congr {settings' : Settings}
    (hbindings : settings.validateBindings = settings'.validateBindings) (files : Files) :
    c.settled settings files = c.settled settings' files := by
  unfold settled groupWork Group.runUnder
  rw [hbindings]

/-- Without a cache, a change set comes to what its paths come to by themselves. -/
theorem apply_run_uncached (hu : u.cache = none) :
    (c.apply settings .calm fresh files).run u =
      let a := c.settled settings files
      let advice := (if a.errors.isEmpty then advise settings .calm a.modified else pure []).run
        ((c.runGroups settings .calm files).run u).2
      (c.resultOf a advice.1 fresh, advice.2) := by
  have hwork (g : Group) : Reader.Stepwise (c.groupWork settings files g) :=
    g.runUnder_stepwise settings _ _ _
  have hran : ((c.runGroups settings .calm files).run u).1 =
      (Group.ofChanges c.files).map fun g => ((c.groupWork settings files g).run .plain).1 :=
    Reader.Stepwise.mapM_uncached hwork _ hu
  rw [apply_run]
  dsimp only
  rw [hran]
  rfl

variable {works : List (Process PathResult)} (hworks : c.Works settings files works)

include hworks

theorem works_texts_subset_runGroups (hu : u.cache = none) :
    ∀ p ∈ works, p.texts ⊆ ((c.runGroups settings .calm files).run u).2.texts := by
  have hran : (c.runGroups settings .calm files).run u = StateT.run (works.mapM Process.run) u :=
    congrArg (StateT.run · u) (Process.mapM_eq_of_carriesOut hworks)
  rw [hran, Process.mapM_run_uncached (Process.blind_of_carriesOut hworks) hu]
  intro p hp text htext
  refine List.mem_append_left _ (List.mem_reverse.mpr ?_)
  exact List.mem_flatMap.mpr ⟨p, hp, htext⟩

/-- A change set reads what its paths ask for. -/
theorem works_texts_subset (hu : u.cache = none) :
    ∀ p ∈ works, p.texts ⊆ ((c.apply settings .calm fresh files).run u).2.texts := by
  have hleads := (c.histories_leads_apply settings .calm fresh files u).texts_subset
  rw [← congrArg Prod.snd (c.runGroups_run settings .calm files u)] at hleads
  exact fun p hp => List.Subset.trans (works_texts_subset_runGroups hworks hu p hp) hleads

omit hworks in
/-- If all goes well, a change set reads what the advice asks for, too. -/
theorem advice_texts_subset (hu : u.cache = none) (herrors : (c.settled settings files).errors = [])
    {p : Process (List Advice.Suggestion)}
    (hp : p.CarriesOut (advise settings .calm (c.settled settings files).modified)) :
    p.texts ⊆ ((c.apply settings .calm fresh files).run u).2.texts := by
  have hcache := (c.runGroups_stepwise settings .calm files).cache_uncached hu
  rw [apply_run_uncached hu]
  dsimp only
  rw [herrors, List.isEmpty_nil, if_pos rfl, ← hp.2, hp.1.run_uncached hcache]
  exact fun text htext => List.mem_append_left _ (List.mem_reverse.mpr htext)

/-- A round of a session comes to what the paths come to by themselves, and leaves a reader that can be
relied on. -/
theorem settled_of_runs (hu : u.cache = none) {texts : List String}
    (htexts : ((c.apply settings .calm fresh files).run u).2.texts ⊆ texts)
    {r r₁ r₂ : Reader} (hr : r.Reliable texts) {ran : List PathResult}
    {suggestions : List Advice.Suggestion}
    (hruns : Pool.Runs (settings.workers works.length) works r ran r₁)
    (hadvice : settings.Advises (Assembly.ofResults ran) r₁ suggestions r₂) :
    Assembly.ofResults ran = c.settled settings files ∧ r₂.Reliable texts := by
  have hworkTexts : ∀ p ∈ works, p.texts ⊆ texts := fun p hp =>
    List.Subset.trans (works_texts_subset hworks hu p hp) htexts
  obtain ⟨hran, hr₁⟩ :=
    hruns.results_eq (Process.blind_of_carriesOut hworks) hworkTexts hr
  have hsettled : Assembly.ofResults ran = c.settled settings files := by
    rw [hran, Process.map_outcome_of_carriesOut hworks]
    rfl
  refine ⟨hsettled, ?_⟩
  rw [hsettled] at hadvice
  -- the reader stays reliable up to every step of the advice
  have hsteps {p : Process (List Advice.Suggestion)} {t : Thread (List Advice.Suggestion)}
      {r' : Reader} (herrors : (c.settled settings files).errors = [])
      (hp : p.CarriesOut (advise settings .calm (c.settled settings files).modified))
      (hsteps : (Thread.ready p).Steps r₁ t r') : r'.Reliable texts := by
    have hcomes : (Thread.ready p).ComesTo texts p.outcome :=
      ⟨hp.1, rfl, List.Subset.trans (advice_texts_subset hu herrors hp) htexts⟩
    exact (hcomes.steps hr₁ hsteps).2
  cases hadvice with
  | skipped => exact hr₁
  | given herrors hp hgiven => exact hsteps herrors hp hgiven
  | failed herrors hp hfailed => exact hsteps herrors hp hfailed

end ChangeSet

/-- What a result says about the files, without advice and name. -/
def ApplyResult.report (result : ApplyResult) :
    Bool × List ModifiedFile × List FileError × List Warning :=
  (result.success, result.modified, result.errors, result.warnings)

namespace Settings

variable {settings settings' : Settings} {files : Files} {changes : List ChangeSet}
  {results results' : List ApplyResult}

/-- The reports on change sets that are applied one after the other, if every path is worked on by
itself. -/
def reports (settings : Settings) : List ChangeSet → Files →
    List (Bool × List ModifiedFile × List FileError × List Warning)
  | [], _ => []
  | c :: rest, files =>
    let result := c.resultOf (c.settled settings files) [] ""
    result.report :: reports settings rest (result.publish files)

theorem reports_congr (hbindings : settings.validateBindings = settings'.validateBindings)
    (changes : List ChangeSet) (files : Files) :
    settings.reports changes files = settings'.reports changes files := by
  induction changes generalizing files with
  | nil => rfl
  | cons c rest ih => rw [reports, reports, c.settled_congr hbindings, ih]

/-- However its steps alternate, a session leads to the reports of paths that are worked on by
themselves. -/
theorem Session.reports_eq {r u : Reader} (h : settings.Session files r changes results)
    {texts : List String} (hr : r.Reliable texts) (hu : u.cache = none)
    (htexts : ((settings.applyAll "" changes files).run u).2.texts ⊆ texts) :
    results.map ApplyResult.report = settings.reports changes files := by
  -- `u` goes through the same rounds without a cache, and reads all texts that matter to the cache
  induction h generalizing u with
  | nil => rfl
  | @cons files r r₁ r₂ c rest works ran suggestions results fresh hworks hruns hadvice _ ih =>
    have hcache := (c.apply_stepwise settings .calm "" files).cache_uncached hu
    have hlater := (settings.applyAll_stepwise "" rest
      (((c.apply settings .calm "" files).run u).1.publish files)).texts_subset_uncached hcache
    obtain ⟨hsettled, hr₂⟩ :=
      ChangeSet.settled_of_runs hworks hu (List.Subset.trans hlater htexts) hr hruns hadvice
    have hpublish : ((c.apply settings .calm "" files).run u).1.publish files =
        (c.resultOf (c.settled settings files) [] "").publish files := by
      rw [ChangeSet.apply_run_uncached hu]
      rfl
    rw [hsettled] at ih ⊢
    have hrest := ih hr₂ hcache (hpublish ▸ htexts)
    rw [List.map_cons, hrest]
    rfl

/-- An engine that starts afresh reads reliably, if the digests of the texts that it uses differ. -/
theorem reader_reliable {texts : List String}
    (hdigest : settings.treeCache = true → Reader.DigestsDiffer texts) :
    settings.reader.Reliable texts := by
  unfold Settings.reader
  split
  case isTrue hcache =>
    intro cache heq
    cases heq
    exact ⟨hdigest hcache, fun entry hentry => by cases hentry⟩
  case isFalse =>
    intro cache heq
    cases heq

theorem advises_run (settings : Settings) (a : Assembly) (r : Reader) :
    let advice :=
      (if a.errors.isEmpty then ChangeSet.advise settings .calm a.modified else pure []).run r
    settings.Advises a r advice.1 advice.2 := by
  split
  case isTrue herrors =>
    obtain ⟨p, hp⟩ := ChangeSet.advise_stepwise settings .calm a.modified
    refine .given (List.isEmpty_iff.mp herrors) hp ?_
    rw [← hp.2]
    exact Thread.steps_run p r
  case isFalse herrors => exact .skipped fun hnil => herrors (List.isEmpty_iff.mpr hnil)

/-- Applying change sets one after the other, path by path, is a session. -/
theorem session_applyAll (settings : Settings) (fresh : String) (changes : List ChangeSet)
    (files : Files) (r : Reader) :
    settings.Session files r changes ((settings.applyAll fresh changes files).run r).1.1 := by
  induction changes generalizing files r with
  | nil => exact .nil
  | cons c rest ih =>
    obtain ⟨works, hworks⟩ := c.exists_works settings files
    have hruns := Pool.runs_mapM (settings.workers_pos works.length) works r
    rw [← Process.mapM_eq_of_carriesOut hworks] at hruns
    rw [applyAll_cons_run, c.apply_run]
    exact .cons fresh hworks hruns (settings.advises_run _ _) (ih _ _)

/-- Any two sessions with the same change sets and files have the same reports on every change set,
whatever the number of workers and the order of their steps, the cache and its size, and the advice or
its failures, if both or none refuse names that are declared twice. They are the reports of applying the
change sets one after the other. With a cache, this rests on the digests of the texts that are used. -/
theorem Session.same_reports (h : settings.Session files settings.reader changes results)
    (h' : settings'.Session files settings'.reader changes results')
    (hbindings : settings.validateBindings = settings'.validateBindings)
    (hdigest : settings.treeCache = true →
      Reader.DigestsDiffer ((settings.applyAll "" changes files).run .plain).2.texts)
    (hdigest' : settings'.treeCache = true →
      Reader.DigestsDiffer ((settings'.applyAll "" changes files).run .plain).2.texts) :
    results.map ApplyResult.report = results'.map ApplyResult.report ∧
      results.map ApplyResult.report =
        ((settings.applyAll "" changes files).run settings.reader).1.1.map ApplyResult.report := by
  have hreports {results : List ApplyResult}
      (h : settings.Session files settings.reader changes results) :
      results.map ApplyResult.report = settings.reports changes files :=
    h.reports_eq (reader_reliable hdigest) rfl (List.Subset.refl _)
  constructor
  · rw [hreports h, h'.reports_eq (reader_reliable hdigest') rfl (List.Subset.refl _),
      reports_congr hbindings]
  · rw [hreports h, hreports (settings.session_applyAll "" changes files settings.reader)]

/-- Two change sets with two paths each, the second of which fails at one. -/
def twoRounds : List ChangeSet :=
  [⟨[⟨"a.tsx", .modify, [.text (.append "x;")], none, none⟩,
      ⟨"b.ts", .create, [], some "y;", none⟩], "", none⟩,
    ⟨[⟨"a.tsx", .modify, [.text (.delete "x;")], none, none⟩,
      ⟨"b.ts", .modify, [.text (.append "x;"), .text (.delete "z")], none, none⟩], "", none⟩]

/-- The fastest settings, with many workers, a cache and no advice, lead to the reports of the standard
ones. -/
theorem aggressive_reports_eq_standard :
    (((aggressive.applyAll "" twoRounds [("a.tsx", "y;")]).run aggressive.reader).1.1.map
        fun result => (result.success, result.modified.length)) = [(true, 2), (false, 1)] ∧
      ((aggressive.applyAll "" twoRounds [("a.tsx", "y;")]).run aggressive.reader).1.1.map
          ApplyResult.report =
        ((standard.applyAll "" twoRounds [("a.tsx", "y;")]).run standard.reader).1.1.map
          ApplyResult.report := by
  have hruns :
      (((aggressive.applyAll "" twoRounds [("a.tsx", "y;")]).run aggressive.reader).1.1.map
        fun result => (result.success, result.modified.length)) = [(true, 2), (false, 1)] ∧
      Reader.DigestsDiffer
        ((aggressive.applyAll "" twoRounds [("a.tsx", "y;")]).run .plain).2.texts := by
    decide +kernel
  have hsame := Session.same_reports (aggressive.session_applyAll "" twoRounds _ _)
    (standard.session_applyAll "" twoRounds [("a.tsx", "y;")] _) rfl (fun _ => hruns.2)
    fun hcache => by cases hcache
  exact ⟨hruns.1, hsame.1⟩

end Settings

end SourceChange
