import SourceChange.Proofs.Reordering

/-!
Change sets in one batch or one after the other.

If no operation creates a file, the changes of two change sets lead to the same files when they are
applied together as when they are applied one set after the other, and to the same errors up to order.
-/

namespace SourceChange

open Source

namespace FileChange

variable {c : FileChange} {mode : RunMode} {reserved reserved' : List String}

/-- No operation of a change creates a file. -/
def CreatesNothing (c : FileChange) : Prop := ∀ op ∈ c.operations, op.createdFile? c.path = none

instance (c : FileChange) : Decidable c.CreatesNothing :=
  inferInstanceAs (Decidable (∀ op ∈ c.operations, op.createdFile? c.path = none))

theorem Carried.created_eq_nil (hc : c.CreatesNothing) {text : String} {r r₁ : Reader} {n : Nat}
    {p : Progress} (h : c.Carried mode reserved text r₁ n p r) : p.created = [] := by
  induction h with
  | start => rfl
  | @next n p r r' op o _ hop _ happly _ ih =>
    rw [ih, Operation.created_eq_nil happly (hc op (List.mem_of_getElem? hop)), List.append_nil]

theorem run_created_eq_nil (hc : c.CreatesNothing) (start : Option String) (r : Reader) :
    ((c.run mode start reserved).run r).1.created = [] := by
  apply run_cases (P := fun o => o.created = [])
  · exact fun _ => rfl
  · rintro p ⟨_, _, _, _, hcarried, _⟩
    exact hcarried.created_eq_nil hc
  · exact fun _ _ _ => rfl

variable {changes : List FileChange} (hchanges : ∀ c ∈ changes, c.CreatesNothing)

include hchanges in
theorem events_created_eq_nil (content : Option String) :
    ∀ e ∈ events mode reserved changes content, e.2.created = [] := by
  induction changes generalizing content with
  | nil => exact fun e he => by cases he
  | cons c rest ih =>
    rw [events_cons]
    intro e he
    obtain rfl | hrest := List.mem_cons.mp he
    · exact run_created_eq_nil (hchanges c List.mem_cons_self) content .plain
    · exact ih (fun c' hc' => hchanges c' (List.mem_cons_of_mem _ hc')) _ e hrest

include hchanges in
/-- Changes that create no file come to the same whatever paths are reserved. -/
theorem events_congr_of_creates_nothing (content : Option String) :
    events mode reserved changes content = events mode reserved' changes content := by
  unfold events
  rw [runAll_congr fun c hc op hop n p => step_congr_of_creates_nothing (hchanges c hc op hop) n p]

end FileChange

namespace ChangeSet

variable {c : ChangeSet} {settings : Settings} {files : Files}
  (hcreate : ∀ f ∈ c.files, f.CreatesNothing)

/-- What the changes of a path come to by themselves, from a given text. -/
def eventsAt (c : ChangeSet) (settings : Settings) (path : String) (content : Option String) :
    List (FileChange × FileOutcome) :=
  FileChange.events (.plain settings.validateBindings) [] (c.changesOf path) content

theorem eventsAt_of_not_mem {path : String} (hpath : path ∉ c.paths) (content : Option String) :
    c.eventsAt settings path content = [] := by
  have hnone : c.changesOf path = [] := by
    rw [changesOf, List.filter_eq_nil_iff]
    intro f hf heq
    have heq : f.path = path := by simpa using heq
    exact hpath (mem_paths.mpr (heq ▸ List.mem_map_of_mem hf))
  rw [eventsAt, hnone]
  rfl

include hcreate

theorem changesOf_createsNothing (path : String) : ∀ f ∈ c.changesOf path, f.CreatesNothing :=
  fun f hf => hcreate f (List.mem_filter.mp hf).1

theorem historyOf_calm (path : String) :
    c.historyOf settings .calm files path =
      let events := c.eventsAt settings path (files.lookup path)
      ⟨path, files.lookup path, events, events.flatMap (·.2.error.toList)⟩ := by
  rw [c.historyOf_of_finishes settings .calm files rfl, eventsAt,
    FileChange.events_congr_of_creates_nothing (changesOf_createsNothing hcreate path)]

theorem historyOf_createdText? (path q : String) :
    (c.historyOf settings .calm files path).createdText? q = none := by
  have hnone : ¬ (c.historyOf settings .calm files path).creates q = true := by
    rw [History.creates_iff]
    rintro ⟨f, hf, -⟩
    obtain ⟨o, ho, hmem⟩ := List.mem_flatMap.mp hf
    obtain ⟨e, he, rfl⟩ := History.mem_events_of_mem_applied ho
    rw [historyOf_calm hcreate] at he
    rw [FileChange.events_created_eq_nil (changesOf_createsNothing hcreate path) _ e he] at hmem
    cases hmem
  simpa [History.creates] using hnone

theorem createApart_of_creates_nothing :
    History.CreateApart (c.paths.map (c.historyOf settings .calm files)) := by
  refine List.pairwise_map.mpr (List.pairwise_of_forall fun path _ q hq _ => ?_)
  rw [History.creates, historyOf_createdText? hcreate] at hq
  cases hq

variable (settings) (fresh : String) (files) {r : Reader} (hr : r.cache = none)
include hr

/-- Without a cache, every path holds in the end what its changes lead to from what it held before. -/
theorem publish_of_creates_nothing (q : String) :
    (((c.apply settings .calm fresh files).run r).1.publish files).lookup q =
      (c.eventsAt settings q (files.lookup q)).foldl History.after (files.lookup q) := by
  have hhistories : ((c.histories settings .calm files).run r).1 =
      c.paths.map (c.historyOf settings .calm files) :=
    histories_of_discerns (Reader.exact_of_uncached hr)
      (Reader.discerns_of_uncached hr (c.apply settings .calm fresh files))
  rw [publish_apply, hhistories]
  unfold History.store
  rw [(createApart_of_creates_nothing hcreate).standing_eq]
  split
  case h_1 h hfind =>
    obtain ⟨path, -, rfl⟩ := List.mem_map.mp (List.mem_of_find?_eq_some hfind)
    have hpath : path = q := by simpa [historyOf_path] using List.find?_some hfind
    rw [hpath, historyOf_calm hcreate]
    rfl
  case h_2 hfind =>
    have hq : q ∉ c.paths := fun hq =>
      List.find?_eq_none.mp hfind _ (List.mem_map_of_mem hq) (by simp [historyOf_path])
    have hcreated : (c.paths.map (c.historyOf settings .calm files)).findSome? (·.createdText? q) =
        none := by
      rw [List.findSome?_eq_none_iff]
      intro h hh
      obtain ⟨path, -, rfl⟩ := List.mem_map.mp hh
      exact historyOf_createdText? hcreate path q
    rw [hcreated, eventsAt_of_not_mem hq]
    rfl

/-- Without a cache, the errors are those of the paths by themselves. -/
theorem errors_of_creates_nothing :
    ((c.apply settings .calm fresh files).run r).1.errors =
      c.paths.flatMap fun path =>
        (c.eventsAt settings path (files.lookup path)).flatMap (·.2.error.toList) := by
  have hdiscerns := Reader.discerns_of_uncached hr (c.apply settings .calm fresh files)
  rw [(apply_of_createApart (Reader.exact_of_uncached hr) hdiscerns
    (createApart_of_creates_nothing hcreate)).2.1]
  refine List.flatMap_congr fun path _ => ?_
  rw [historyOf_calm hcreate]

end ChangeSet

/-- Keys that stand for nothing may be left out. -/
theorem flatMap_perm_of_subset {α β : Type} [DecidableEq β] {xs ys : List β} (hxs : xs.Nodup)
    (hys : ys.Nodup) (hsubset : xs ⊆ ys) {f : β → List α} (hf : ∀ k ∉ xs, f k = []) :
    (xs.flatMap f).Perm (ys.flatMap f) := by
  have hkept : (ys.filter fun k => xs.contains k).Perm xs := by
    refine (List.perm_ext_iff_of_nodup (hys.filter _) hxs).mpr fun k => ?_
    rw [List.mem_filter, List.contains_iff_mem]
    exact ⟨And.right, fun hk => ⟨hsubset hk, hk⟩⟩
  have hleft : (ys.filter fun k => !xs.contains k).flatMap f = [] := by
    rw [List.flatMap_eq_nil_iff]
    intro k hk
    exact hf k (by simpa using (List.mem_filter.mp hk).2)
  have hsplit := (List.filter_append_perm (fun k => xs.contains k) ys).flatMap_right f
  rw [List.flatMap_append, hleft, List.append_nil] at hsplit
  exact (hkept.flatMap_right f).symm.trans hsplit

namespace ChangeSet

variable {a b both : ChangeSet} (hboth : both.files = a.files ++ b.files) {settings : Settings}

include hboth

/-- The changes of the second set start from what those of the first lead to. -/
theorem eventsAt_append (path : String) (content : Option String) :
    both.eventsAt settings path content =
      a.eventsAt settings path content ++
        b.eventsAt settings path ((a.eventsAt settings path content).foldl History.after content) := by
  unfold eventsAt changesOf
  rw [hboth, List.filter_append, FileChange.events_append]

/-- What both sets report path by path is what they report one after the other. -/
theorem flatMap_paths_append {α : Type} {f g : String → List α} (hf : ∀ path ∉ a.paths, f path = [])
    (hg : ∀ path ∉ b.paths, g path = []) :
    (both.paths.flatMap fun path => f path ++ g path).Perm
      (a.paths.flatMap f ++ b.paths.flatMap g) := by
  have hmem (path : String) : path ∈ both.paths ↔ path ∈ a.paths ∨ path ∈ b.paths := by
    rw [mem_paths, mem_paths, mem_paths, hboth, List.map_append, List.mem_append]
  have ha := flatMap_perm_of_subset a.paths_nodup both.paths_nodup
    (fun path hpath => (hmem path).mpr (.inl hpath)) hf
  have hb := flatMap_perm_of_subset b.paths_nodup both.paths_nodup
    (fun path hpath => (hmem path).mpr (.inr hpath)) hg
  exact (List.flatMap_append_perm both.paths f g).symm.trans (ha.append hb).symm

end ChangeSet

/-- Changes that create no files lead to the same files and, up to order, to the same errors, whether
they are applied in one change set or in two that follow each other. -/
theorem Settings.batch_eq_sequence {settings : Settings} {r r' : Reader} (hr : settings.Reaches r)
    (hr' : settings.Reaches r') {a b both : ChangeSet} (hboth : both.files = a.files ++ b.files)
    (hcreate : ∀ f ∈ both.files, f.CreatesNothing) (fresh fresh' : String) (files : Files)
    (hdiscerns : r.Discerns (settings.applyAll fresh [both] files))
    (hdiscerns' : r'.Discerns (settings.applyAll fresh' [a, b] files)) :
    let batch := ((settings.applyAll fresh [both] files).run r).1
    let sequence := ((settings.applyAll fresh' [a, b] files).run r').1
    (∀ q, batch.2.lookup q = sequence.2.lookup q) ∧
      (batch.1.flatMap (·.errors)).Perm (sequence.1.flatMap (·.errors)) := by
  intro batch sequence
  have hbatch : batch = _ :=
    (settings.applyAll_stepwise fresh [both] files).run_eq hr.exact hdiscerns
  have hsequence : sequence = _ :=
    (settings.applyAll_stepwise fresh' [a, b] files).run_eq hr'.exact hdiscerns'
  have ha : ∀ f ∈ a.files, f.CreatesNothing := fun f hf =>
    hcreate f (hboth ▸ List.mem_append_left _ hf)
  have hb : ∀ f ∈ b.files, f.CreatesNothing := fun f hf =>
    hcreate f (hboth ▸ List.mem_append_right _ hf)
  simp only [applyAll_cons_run, applyAll_nil_run] at hbatch hsequence
  have hcache := (a.apply_stepwise settings .calm fresh' files).cache_uncached (r := .plain) rfl
  have hbetween := ChangeSet.publish_of_creates_nothing settings files ha fresh' (r := .plain) rfl
  have herrors := ChangeSet.errors_of_creates_nothing settings files ha fresh' (r := .plain) rfl
  -- of the files in between only what `hbetween` says is used from here on
  generalize (a.apply settings .calm fresh' files).run .plain = first at hsequence hcache hbetween herrors
  have hafter := ChangeSet.publish_of_creates_nothing settings (first.1.publish files) hb fresh' hcache
  have herrors' := ChangeSet.errors_of_creates_nothing settings (first.1.publish files) hb fresh' hcache
  rw [hbatch, hsequence]
  refine ⟨fun q => ?_, ?_⟩
  · refine (ChangeSet.publish_of_creates_nothing settings files hcreate fresh rfl q).trans ?_
    refine Eq.trans ?_ (hafter q).symm
    rw [ChangeSet.eventsAt_append hboth, List.foldl_append, hbetween]
  · simp only [List.flatMap_cons, List.flatMap_nil, List.append_nil]
    rw [ChangeSet.errors_of_creates_nothing settings files hcreate fresh rfl, herrors, herrors']
    simp only [ChangeSet.eventsAt_append hboth, List.flatMap_append, ← hbetween]
    refine ChangeSet.flatMap_paths_append hboth ?_ ?_
    · intro path hpath
      rw [ChangeSet.eventsAt_of_not_mem hpath]
      rfl
    · intro path hpath
      rw [ChangeSet.eventsAt_of_not_mem hpath]
      rfl

namespace ChangeSet

/-- Deletes a file and creates another one. -/
def moving : ChangeSet :=
  ⟨[⟨"a.ts", .delete, [], none, none⟩, ⟨"b.ts", .create, [], some "x;", none⟩], "", none⟩

/-- Creates the first file again and fails to change the other one. -/
def refilling : ChangeSet :=
  ⟨[⟨"a.ts", .create, [], some "y;", none⟩,
    ⟨"b.ts", .modify, [.text (.append "y;"), .text (.delete "z")], none, none⟩], "", none⟩

def movingAndRefilling : ChangeSet := ⟨moving.files ++ refilling.files, "", none⟩

/-- Moving and refilling at once leads to the same files as one after the other. -/
theorem moving_then_refilling :
    ((Settings.cached.applyAll "" [movingAndRefilling] [("a.ts", "x;")]).run
        Settings.cached.reader).1.2 = [("a.ts", "y;"), ("b.ts", "x;")] ∧
      ∀ q, ((Settings.cached.applyAll "" [movingAndRefilling] [("a.ts", "x;")]).run
          Settings.cached.reader).1.2.lookup q =
        ((Settings.cached.applyAll "" [moving, refilling] [("a.ts", "x;")]).run
          Settings.cached.reader).1.2.lookup q := by
  have hruns :
      ((Settings.cached.applyAll "" [movingAndRefilling] [("a.ts", "x;")]).run
        Settings.cached.reader).1.2 = [("a.ts", "y;"), ("b.ts", "x;")] ∧
      Settings.cached.reader.Discerns
        (Settings.cached.applyAll "" [movingAndRefilling] [("a.ts", "x;")]) ∧
      Settings.cached.reader.Discerns
        (Settings.cached.applyAll "" [moving, refilling] [("a.ts", "x;")]) := by
    decide +kernel
  obtain ⟨hfiles, hdiscerns, hdiscerns'⟩ := hruns
  have hcreate : ∀ f ∈ movingAndRefilling.files, f.CreatesNothing := by decide
  have hsame := Settings.batch_eq_sequence .start .start rfl hcreate "" "" [("a.ts", "x;")] hdiscerns
    hdiscerns'
  exact ⟨hfiles, hsame.1⟩

end ChangeSet

end SourceChange
