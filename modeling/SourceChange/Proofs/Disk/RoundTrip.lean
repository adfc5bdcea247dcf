import SourceChange.Proofs.Disk.Atomicity
import SourceChange.Proofs.Disk.Overwriting

/-!
Change sets that ask for nothing.

A modification without operations leaves the text that was read. But a text is read with its line ends unified,
and it is written as it is: a file in which a line ends otherwise does not stay as it was. Every other file
does, however the run ends.
-/

namespace SourceChange

open Source

namespace FileChange

variable {mode : RunMode} {reserved : List String} {changes : List FileChange}

/-- Modifications without operations leave what was there, whether they are carried out or not. -/
theorem runAll_final_of_no_operations (hempty : ∀ f ∈ changes, f.action = .modify ∧ f.operations = [])
    (content : Option String) (r : Reader) :
    ((runAll mode reserved changes content).run r).1.foldl History.after content = content := by
  induction changes generalizing content r with
  | nil => rfl
  | cons c rest ih =>
    obtain ⟨⟨haction, hoperations⟩, hrest⟩ := List.forall_mem_cons.mp hempty
    rw [runAll, Reader.run_bind, Reader.run_bind, Reader.run_pure, List.foldl_cons]
    have hafter : History.after content (c, ((c.run mode content reserved).run r).1) = content := by
      rw [History.after]
      split
      case isFalse => rfl
      case isTrue hsucceeded =>
        have hother : c.action ≠ .delete := by
          rw [haction]
          decide
        obtain ⟨text, rfl⟩ := Option.ne_none_iff_exists'.mp ((run_succeeded hsucceeded).1 haction)
        obtain ⟨-, -, -, hcompletes⟩ := (run_succeeded_iff c mode _ reserved r).mp hsucceeded
        obtain ⟨p, hp⟩ := hcompletes hother
        rw [if_neg hother, hp.run_eq, hp.text_eq_input hoperations, input, if_neg (by rw [haction]; decide)]
        rfl
    rw [hafter, ih hrest]

theorem runAll_created_of_no_operations (hempty : ∀ f ∈ changes, f.action = .modify ∧ f.operations = [])
    (content : Option String) (r : Reader) :
    ∀ e ∈ ((runAll mode reserved changes content).run r).1, e.2.created = [] := by
  intro e he
  have hmem : e.1 ∈ changes := runAll_changes changes content r ▸ List.mem_map_of_mem he
  have hnothing : e.1.CreatesNothing := by
    rw [CreatesNothing, (hempty e.1 hmem).2]
    exact fun op hop => nomatch hop
  exact runAll_events (P := fun f o => f.CreatesNothing → o.created = [])
    (fun f start r hf => run_created_eq_nil hf start r) changes content r e he hnothing

end FileChange

namespace ChangeSet

variable {c : ChangeSet} {settings : Settings} {around : Circumstances} {fresh : String} {files : Files}
  {r : Reader}

/-- Where a run of modifications succeeds, every path has something to be written. -/
theorem exists_modified_of_success (hmodify : ∀ f ∈ c.files, f.action = .modify)
    (hsuccess : ((c.apply settings around fresh files).run r).1.success = true) {path : String}
    (hpath : path ∈ c.paths) :
    ∃ m ∈ ((c.apply settings around fresh files).run r).1.modified, m.path = path := by
  have hhistory : ∀ h ∈ ((c.histories settings around files).run r).1, h.path ∈ c.paths → c.unapplied h = [] →
      ∃ start text, h.start = some start ∧ h.final = some text ∧ h.applied ≠ [] := by
    refine c.histories_forall settings around files (fun path r hpath hdone => ?_) r
    rw [history_path] at hpath
    exact history_of_modifies hmodify hpath around r hdone
  obtain ⟨h, hmem, rfl⟩ : ∃ h ∈ ((c.histories settings around files).run r).1, h.path = path := by
    rw [← c.histories_paths settings around files r] at hpath
    exact List.mem_map.mp hpath
  obtain ⟨hstanding, hdone⟩ :=
    (c.errors_eq_nil_iff settings around fresh files r).mp (List.isEmpty_iff.mp hsuccess) h hmem
  obtain ⟨start, text, hstart, hfinal, happlied⟩ := hhistory h hmem hpath hdone
  refine ⟨⟨h.path, text, .modify⟩, ?_, rfl⟩
  rw [c.apply_modified, (c.histories_apart settings around files r).mem_modified]
  exact ⟨h, hstanding, .inl ⟨happlied, History.toResult_published_of_some hstart hfinal⟩⟩

theorem histories_of_no_operations (hempty : ∀ f ∈ c.files, f.action = .modify ∧ f.operations = []) :
    ∀ h ∈ ((c.histories settings around files).run r).1,
      h.final = h.start ∧ ∀ e ∈ h.events, e.2.created = [] := by
  refine c.histories_forall settings around files (fun path r => ?_) r
  obtain ⟨failure, hrun⟩ | ⟨ran, rfl, hrun⟩ := c.history_run settings around files path r
  · rw [hrun]
    exact ⟨rfl, fun e he => nomatch he⟩
  · have hchanges : ∀ f ∈ c.changesOf path, f.action = .modify ∧ f.operations = [] :=
      fun f hf => hempty f (List.mem_filter.mp hf).1
    rw [hrun]
    exact ⟨FileChange.runAll_final_of_no_operations hchanges _ r,
      FileChange.runAll_created_of_no_operations hchanges _ r⟩

/-- What is published is what was read. -/
theorem modified_of_no_operations (hempty : ∀ f ∈ c.files, f.action = .modify ∧ f.operations = [])
    {m : ModifiedFile} (hm : m ∈ ((c.apply settings around fresh files).run r).1.modified) :
    (∃ f ∈ c.files, f.path = m.path) ∧ m.action = .modify ∧ files.lookup m.path = some m.content := by
  have hapart := c.histories_apart settings around files r
  rw [c.apply_modified, hapart.mem_modified] at hm
  obtain ⟨h, hstanding, hm⟩ := hm
  have hmem := (History.standing_sublist _).subset hstanding
  obtain ⟨hfinal, hcreated⟩ := histories_of_no_operations hempty h hmem
  obtain ⟨-, hpublished⟩ | ⟨hcreated', -⟩ := hm
  · have hran := (hapart.ran h hmem).start
    cases hstart : h.start with
    | none =>
      rw [PathResult.published, History.toResult, hfinal, hstart] at hpublished
      cases hpublished
    | some text =>
      rw [History.toResult_published_of_some hstart (hfinal.trans hstart)] at hpublished
      obtain rfl := Option.some.inj hpublished
      refine ⟨List.mem_map.mp (mem_paths.mp ?_), rfl, hran.symm.trans hstart⟩
      rw [← c.histories_paths settings around files r]
      exact List.mem_map_of_mem hmem
  · have hcreates : h.creates m.path = true := by
      rw [History.creates, hcreated']
      rfl
    obtain ⟨f, hf, -⟩ := (h.creates_iff m.path).mp hcreates
    obtain ⟨outcome, houtcome, hf⟩ := List.mem_flatMap.mp hf
    obtain ⟨e, he, rfl⟩ := History.mem_events_of_mem_applied houtcome
    rw [hcreated e he] at hf
    cases hf

end ChangeSet

namespace Disk

open SourceChange.Path

variable {d d' : Disk} {workspace : String} {m : ModifiedFile} {ms : List ModifiedFile} {l : Location}

theorem unifyLines_eq_self {cs : List Char} (h : '\r' ∉ cs) : unifyLines cs = cs := by
  fun_induction unifyLines cs with
  | case1 => rfl
  | case2 cs => exact absurd List.mem_cons_self h
  | case3 c cs _ ih =>
    obtain ⟨hc, hcs⟩ := not_or.mp (List.mem_cons.not.mp h)
    rw [ih hcs, if_neg (by simpa using Ne.symm hc)]

theorem toUTF8_of_fromUTF8? {bytes : ByteArray} {s : String} (h : String.fromUTF8? bytes = some s) :
    s.toUTF8 = bytes := by
  unfold String.fromUTF8? at h
  split at h
  case isTrue =>
    obtain rfl := Option.some.inj h
    rfl
  case isFalse => cases h

/-- Files of a result that can all be modified where they are. -/
structure Rewritable (d : Disk) (workspace : String) (ms : List ModifiedFile) : Prop where
  closed : d.Closed
  current : ∀ n ∈ d.current, IsName n
  modify : ∀ m ∈ ms, m.action = .modify
  replaceable : ∀ m ∈ ms, ∀ loc, d.resolveIn workspace m.path = .ok loc → d.Replaceable loc

namespace Rewritable

theorem tail (h : d.Rewritable workspace (m :: ms)) : d.Rewritable workspace ms where
  closed := h.closed
  current := h.current
  modify := (List.forall_mem_cons.mp h.modify).2
  replaceable := (List.forall_mem_cons.mp h.replaceable).2

theorem rewrites {touched : Location → Prop} (h : d.Rewritable workspace ms) (hrewrites : Rewrites d d' touched) :
    d'.Rewritable workspace ms where
  closed := hrewrites.closed
  current := by
    rw [hrewrites.current]
    exact h.current
  modify := h.modify
  replaceable m hm loc hloc := (h.replaceable m hm loc (hrewrites.resolveIn_before hloc)).rewrites hrewrites

theorem overwritable (h : d.Rewritable workspace ms) : d.Overwritable workspace ms where
  closed := h.closed
  current := h.current
  modify := h.modify
  unlinked m hm loc hloc := (h.replaceable m hm loc hloc).toUnlinked
  above m hm loc hloc := (h.replaceable m hm loc hloc).above

end Rewritable

end Disk

namespace CommandLine

open Disk SourceChange.Path

variable {d d' : Disk} {workspace : String} {m : ModifiedFile} {ms : List ModifiedFile} {l : Location}

/-- However writing a file ends, a place that it does not use besides has what it had, or the content of the file
if that leads there. -/
theorem publishFile_leaves (hp : d.Rewritable workspace (m :: ms))
    (hspare : ∀ loc, d.resolveIn workspace m.path = .ok loc → ¬ Scratch loc l)
    (hafter : (publishFile d workspace m).disk = d') :
    (∃ touched, Rewrites d d' touched) ∧
      (d'.entry? l = d.entry? l ∨
        d.resolveIn workspace m.path = .ok l ∧ d'.entry? l = some (.file m.content.toUTF8)) := by
  subst hafter
  have haction := (List.forall_mem_cons.mp hp.modify).1
  cases hloc : d.resolveIn workspace m.path with
  | error fault =>
    rw [publishFile, hloc]
    cases fault <;> exact ⟨⟨fun _ => False, Rewrites.refl hp.closed⟩, .inl rfl⟩
  | ok loc =>
    have hwrite : Leaves d (d.atomicWrite (pathOf loc) m.content.toUTF8 true).1 loc _ :=
      atomicWrite_leaves hp.closed (isName_of_resolveIn hp.current hloc)
        ((List.forall_mem_cons.mp hp.replaceable).1 loc hloc)
    have hdisk : (publishFile d workspace m).disk = (d.atomicWrite (pathOf loc) m.content.toUTF8 true).1 := by
      rw [publishFile, hloc]
      dsimp only
      rw [haction]
      cases d.atomicWrite (pathOf loc) m.content.toUTF8 true with
      | mk after ending => cases ending <;> rfl
    rw [hdisk]
    refine ⟨⟨_, hwrite.rewrites⟩, ?_⟩
    by_cases hl : l = loc
    · subst hl
      obtain hsame | ⟨bytes, rfl | hold, hthere⟩ := hwrite.content
      · exact .inl hsame
      · exact .inr ⟨rfl, hthere⟩
      · exact .inl (hthere.trans hold.symm)
    · exact .inl (hwrite.rewrites.others l (not_or.mpr ⟨hl, hspare loc hloc⟩))

/-- However writing a result ends, such a place has what it had, or the content of a file that leads there. -/
theorem publish_leaves (hp : d.Rewritable workspace ms)
    (hspare : ∀ m ∈ ms, ∀ loc, d.resolveIn workspace m.path = .ok loc → ¬ Scratch loc l) {skipped : List String}
    (hafter : (publish workspace ms d skipped).1 = d') :
    d'.entry? l = d.entry? l ∨
      ∃ m ∈ ms, d.resolveIn workspace m.path = .ok l ∧ d'.entry? l = some (.file m.content.toUTF8) := by
  induction ms generalizing d skipped with
  | nil =>
    obtain rfl : d = d' := hafter
    exact .inl rfl
  | cons m ms ih =>
    obtain ⟨hspare, hspareRest⟩ := List.forall_mem_cons.mp hspare
    obtain ⟨⟨touched, hrewrites⟩, hentry⟩ := publishFile_leaves hp hspare rfl
    -- what the rest leaves, seen from before the first file was written
    have hrest (between : Disk) (hbetween : (publishFile d workspace m).disk = between) (skipped : List String)
        (hafter : (publish workspace ms between skipped).1 = d') : d'.entry? l = d.entry? l ∨
          ∃ a ∈ m :: ms, d.resolveIn workspace a.path = .ok l ∧ d'.entry? l = some (.file a.content.toUTF8) := by
      subst hbetween
      have hspareRest : ∀ a ∈ ms, ∀ loc,
          (publishFile d workspace m).disk.resolveIn workspace a.path = .ok loc → ¬ Scratch loc l :=
        fun a ha loc hloc => hspareRest a ha loc (hrewrites.resolveIn_before hloc)
      obtain hsame | ⟨a, ha, hl, hthere⟩ := ih (hp.tail.rewrites hrewrites) hspareRest hafter
      · rw [hsame]
        obtain hfirst | ⟨hl, hfirst⟩ := hentry
        · exact .inl hfirst
        · exact .inr ⟨m, List.mem_cons_self, hl, hfirst⟩
      · exact .inr ⟨a, List.mem_cons_of_mem m ha, hrewrites.resolveIn_before hl, hthere⟩
    rw [publish] at hafter
    cases hfile : publishFile d workspace m with
    | written between =>
      rw [hfile] at hafter
      exact hrest between (by rw [hfile]; rfl) skipped hafter
    | skipped between =>
      rw [hfile] at hafter
      exact hrest between (by rw [hfile]; rfl) _ hafter
    | broken after crash =>
      rw [hfile] at hafter hentry
      obtain rfl : after = d' := hafter
      obtain hsame | ⟨hl, hthere⟩ := hentry
      · exact .inl hsame
      · exact .inr ⟨m, List.mem_cons_self, hl, hthere⟩

/-! ### Runs -/

variable {disk : Disk} {args : List String} {o : ApplyOptions} {env : Environment} {fresh : String} {c : ChangeSet}
  {settings : Settings} {files : Files} {bytes : ByteArray}

section Named

variable (hd : disk.Closed) (hcurrent : ∀ n ∈ disk.current, IsName n)
  (hworkspace : disk.isDirectory o.workspace = true) (hload : loadAll disk o = .ok (c, files))
  (hempty : ∀ f ∈ c.files, f.action = .modify ∧ f.operations = [])
  (hguarded : ∀ f ∈ c.files, ∀ loc, disk.resolveIn o.workspace f.path = .ok loc →
    disk.Guarded o.workspace f.path loc)
include hd hcurrent hworkspace hload hempty hguarded

/-- What is to be written to a place is the text that was read there. -/
theorem exists_text_of_modified
    (hm : m ∈ ((c.apply settings .calm fresh files).run settings.reader).1.modified) {loc : Location}
    (hloc : disk.resolveIn o.workspace m.path = .ok loc) :
    disk.Replaceable loc ∧ ∃ bytes s, disk.entry? loc = some (.file bytes) ∧
      String.fromUTF8? bytes = some s ∧ m.content = String.ofList (unifyLines s.toList) := by
  obtain ⟨⟨f, hf, hname⟩, -, htext⟩ := ChangeSet.modified_of_no_operations hempty hm
  obtain ⟨-, -, hfiles⟩ := loadAll_eq_ok hload
  have hguard := hguarded f hf loc (hname ▸ hloc)
  have hunlinked := unlinked_of_guarded hd hworkspace (hname ▸ hloc) hguard
  obtain ⟨-, bytes, s, hbytes, hs, hcontent⟩ :=
    loadFile_eq_some (hfiles m.path m.content htext) hd hcurrent hloc hunlinked.clear
  exact ⟨⟨hunlinked, hguard.inside, hd loc (by simp [hbytes]), by simp [hbytes]⟩, bytes, s, hbytes, hs, hcontent⟩

theorem rewritable_of_no_operations :
    disk.Rewritable o.workspace ((c.apply settings .calm fresh files).run settings.reader).1.modified :=
  ⟨hd, hcurrent, fun _ hm => (ChangeSet.modified_of_no_operations hempty hm).2.1,
    fun _ hm _ hloc => (exists_text_of_modified hd hcurrent hworkspace hload hempty hguarded hm hloc).1⟩

section Written

variable {before after : Disk} {touched : Location → Prop} (hfile : disk.entry? l = some (.file bytes))
  (hbefore : Rewrites disk before touched)
  (hspare : ∀ m ∈ ((c.apply settings .calm fresh files).run settings.reader).1.modified, ∀ loc,
    before.resolveIn o.workspace m.path = .ok loc → ¬ Scratch loc l)
include hfile hbefore hspare

/-- Writing the result leaves a text without carriage returns as it is. -/
theorem publish_leaves_plain (hthere : before.entry? l = some (.file bytes))
    (hplain : (∃ f ∈ c.files, disk.resolveIn o.workspace f.path = .ok l) →
      ∀ s, String.fromUTF8? bytes = some s → '\r' ∉ s.toList)
    (hafter : (publish o.workspace ((c.apply settings .calm fresh files).run settings.reader).1.modified
      before []).1 = after) : after.entry? l = some (.file bytes) := by
  have hp : disk.Rewritable o.workspace
      ((c.apply settings .calm fresh files).run settings.reader).1.modified :=
    rewritable_of_no_operations hd hcurrent hworkspace hload hempty hguarded
  obtain hsame | ⟨m, hm, hl, hwritten⟩ := publish_leaves (hp.rewrites hbefore) hspare hafter
  · rw [hsame, hthere]
  · have hl := hbefore.resolveIn_before hl
    obtain ⟨⟨f, hf, hname⟩, -⟩ := ChangeSet.modified_of_no_operations hempty hm
    obtain ⟨-, bytes', s, hbytes, hs, hcontent⟩ :=
      exists_text_of_modified hd hcurrent hworkspace hload hempty hguarded hm hl
    obtain rfl := Entry.file.inj (Option.some.inj (hfile.symm.trans hbytes))
    rw [hwritten, hcontent, unifyLines_eq_self (hplain ⟨f, hf, hname ▸ hl⟩ s hs), String.ofList_toList,
      toUTF8_of_fromUTF8? hs]

/-- Once the result is written, a file that is named has its own text with line feeds. -/
theorem publish_leaves_unified {skipped : List String}
    (hsuccess : ((c.apply settings .calm fresh files).run settings.reader).1.success = true)
    (hpublish : publish o.workspace ((c.apply settings .calm fresh files).run settings.reader).1.modified
      before [] = (after, skipped, none))
    (hnamed : ∃ f ∈ c.files, disk.resolveIn o.workspace f.path = .ok l) :
    ∃ s, String.fromUTF8? bytes = some s ∧
      after.entry? l = some (.file (String.ofList (unifyLines s.toList)).toUTF8) := by
  have hp : disk.Rewritable o.workspace
      ((c.apply settings .calm fresh files).run settings.reader).1.modified :=
    rewritable_of_no_operations hd hcurrent hworkspace hload hempty hguarded
  obtain ⟨f, hf, hl⟩ := hnamed
  obtain ⟨m, hm, hname⟩ := ChangeSet.exists_modified_of_success (fun f hf => (hempty f hf).1) hsuccess
    (ChangeSet.mem_paths.mpr (List.mem_map_of_mem hf))
  rw [← hname] at hl
  have hlBefore := hbefore.resolveIn_after hcurrent (hp.replaceable m hm l hl).clear hl
  obtain ⟨last, hlast, hl, hwritten⟩ := publish_of_mem hpublish (hp.rewrites hbefore).overwritable
    (fun m hm loc hloc => not_or.mp fun hin => hspare m hm loc hloc (hin.imp_right .inl)) hm hlBefore
  obtain ⟨-, bytes', s, hbytes, hs, hcontent⟩ := exists_text_of_modified hd hcurrent hworkspace hload hempty
    hguarded hlast (hbefore.resolveIn_before hl)
  obtain rfl := Entry.file.inj (Option.some.inj (hfile.symm.trans hbytes))
  exact ⟨s, hs, by rw [hwritten, hcontent]⟩

end Written

end Named

section Opened

variable {start : Disk} {touched : Location → Prop} (h : Rewrites disk start touched)
include h

theorem guarded_of_rewrites {path : String} {loc : Location} (hguarded : disk.Guarded o.workspace path loc) :
    start.Guarded o.workspace path loc where
  straight hcircular := by
    refine h.clear (hguarded.straight ?_)
    rwa [resolve, h.current, resolution_congr h.links, resolution_congr h.links] at hcircular
  temporary := (h.links _).trans hguarded.temporary
  backup := (h.links _).trans hguarded.backup
  inside := (h.links _).trans hguarded.inside

variable (hstays : ∀ l, disk.entry? l ≠ none → start.entry? l = disk.entry? l)
include hstays

/-- A file that was there is read as before. -/
theorem content?_of_stays {path : String} (hcontent : disk.content? path = some bytes) :
    start.content? path = some bytes := by
  rw [content?, lookup?] at hcontent ⊢
  rw [h.place?_eq]
  cases hplace : disk.place? path with
  | none =>
    rw [hplace] at hcontent
    cases hcontent
  | some loc =>
    rw [hplace, Option.bind_some] at hcontent
    rw [Option.bind_some, hstays loc ?_, hcontent]
    intro hnone
    rw [hnone] at hcontent
    cases hcontent

theorem readChangeSet_of_stays {file : String} (hread : readChangeSet disk file = .ok c) :
    readChangeSet start file = .ok c := by
  have htext : ∀ text, disk.readText file = .ok text → start.readText file = .ok text := by
    intro text htext
    rw [readText, exactText] at htext ⊢
    cases hcontent : disk.content? file with
    | none =>
      rw [hcontent] at htext
      cases htext
    | some bytes =>
      rw [hcontent] at htext
      rw [content?_of_stays h hstays hcontent, htext]
  rw [readChangeSet] at hread ⊢
  cases hdisk : disk.readText file with
  | error failure =>
    rw [hdisk] at hread
    cases hread
  | ok text =>
    rw [hdisk] at hread
    rw [htext text hdisk]
    exact hread

end Opened

/-- A run of modifications without operations leaves every file as it was, however it ends, as long as the text
of the file has no carriage return, the file is not the log, and no file is written whose temporary file or backup
stands in its place. If it succeeds, every file that is named has its own text, but with line feeds for the ends of
its lines. -/
theorem run_leaves_texts {host : Host} (hparse : parse? disk args = some (.apply o))
    (hread : readChangeSet disk o.changeSet = .ok c)
    (hempty : ∀ f ∈ c.files, f.action = .modify ∧ f.operations = [])
    (hd : disk.Closed) (hcurrent : ∀ n ∈ disk.current, IsName n)
    (hhere : disk.entry? disk.current = some .directory)
    (hguarded : ∀ f ∈ c.files, ∀ loc, disk.resolveIn o.workspace f.path = .ok loc →
      disk.Guarded o.workspace f.path loc)
    (hfile : disk.entry? l = some (.file bytes))
    (hspare : ∀ f ∈ c.files, ∀ loc, disk.resolveIn o.workspace f.path = .ok loc → ¬ Scratch loc l)
    (houtput : ∀ file, o.output = some file → disk.place? file ≠ some l) (hlog : ¬ LogsAt o env disk l) :
    let after := (run args env fresh disk host).disk
    let named := ∃ f ∈ c.files, disk.resolveIn o.workspace f.path = .ok l
    ((named → ∀ s, String.fromUTF8? bytes = some s → '\r' ∉ s.toList) → after.entry? l = some (.file bytes)) ∧
    (named → o.write = true → (run args env fresh disk host).ending.status = 0 →
      ∃ s, String.fromUTF8? bytes = some s ∧
        after.entry? l = some (.file (String.ofList (unifyLines s.toList)).toUTF8)) := by
  intro after named
  have hready : Ready disk o.workspace := ⟨hd, hcurrent, hhere, isDirectory_of_parse? hparse⟩
  have hrun : run args env fresh disk host = runApply host o env fresh disk := by rw [run, hparse]
  unfold after
  rw [hrun]
  obtain ⟨hfailed, hidles⟩ | ⟨r, before, lines, hresult, hfinish⟩ := runApply_cases host o env fresh disk
  · refine ⟨fun _ => ?_, fun _ _ hstatus => absurd hstatus hfailed⟩
    rw [(hidles.rewrites hd hhere).others l hlog, hfile]
  · rw [hfinish]
    obtain ⟨settings, name, start, c', files, hsettings, hopen, hload, rfl, hbefore⟩ := exists_of_result? hresult
    obtain ⟨hopened, hstays⟩ := openLog?_rewrites hd hhere hopen
    obtain ⟨hread', -, -⟩ := loadAll_eq_ok hload
    obtain rfl := Except.ok.inj ((readChangeSet_of_stays hopened hstays hread).symm.trans hread')
    -- once the log is open, everything else is as it was
    obtain ⟨hdStart, hcurrentStart, hhereStart, hworkspaceStart⟩ := hready.rewrites hopened
    have hguardedStart : ∀ f ∈ c.files, ∀ loc, start.resolveIn o.workspace f.path = .ok loc →
        start.Guarded o.workspace f.path loc := fun f hf loc hloc =>
      guarded_of_rewrites hopened (hguarded f hf loc (hopened.resolveIn_before hloc))
    have hfileStart : start.entry? l = some (.file bytes) := by
      rw [hstays l (by simp [hfile]), hfile]
    have hrewrites := before_rewrites hdStart hhereStart hbefore
    have hfileBefore : before.entry? l = some (.file bytes) := by
      rw [entry_eq_of_before hready hopen hbefore houtput fun hto => hlog ⟨_, _, hsettings, hto⟩, hfileStart]
    have hspareBefore : ∀ m ∈ ((c.apply settings .calm fresh files).run settings.reader).1.modified, ∀ loc,
        before.resolveIn o.workspace m.path = .ok loc → ¬ Scratch loc l := by
      intro m hm loc hloc
      obtain ⟨⟨f, hf, hname⟩, -⟩ := ChangeSet.modified_of_no_operations hempty hm
      exact hspare f hf loc (hname ▸ hopened.resolveIn_before (hrewrites.resolveIn_before hloc))
    refine ⟨fun hplain => ?_, fun hnamed hwrite hstatus => ?_⟩
    · obtain hsame | ⟨-, hpublished⟩ := finish_disk host o
        ((c.apply settings .calm fresh files).run settings.reader).1 lines before
      · rw [hsame, hfileBefore]
      · rw [hpublished]
        refine publish_leaves_plain hdStart hcurrentStart hworkspaceStart hload hempty hguardedStart hfileStart
          hrewrites hspareBefore hfileBefore ?_ rfl
        rintro ⟨f, hf, hl⟩
        exact hplain ⟨f, hf, hopened.resolveIn_before hl⟩
    · obtain ⟨hsuccess, skipped, hpublish, -⟩ := publish_of_status hwrite hstatus
      obtain ⟨f, hf, hl⟩ := hnamed
      have hclear := (unlinked_of_guarded hd hready.workspace hl (hguarded f hf l hl)).clear
      exact publish_leaves_unified hdStart hcurrentStart hworkspaceStart hload hempty hguardedStart hfileStart
        hrewrites hspareBefore hsuccess hpublish ⟨f, hf, hopened.resolveIn_after hcurrent hclear hl⟩

/-- Two texts, one of them with a carriage return. -/
def letters : Disk :=
  ⟨[(["c.json"], .file
      "\x7b\"files\":[\x7b\"path\":\"a.txt\"\x7d,\x7b\"path\":\"b.txt\"\x7d]\x7d".toUTF8),
    (["ws"], .directory), (["ws", "a.txt"], .file "one\r\n".toUTF8), (["ws", "b.txt"], .file "two\n".toUTF8)], []⟩

/-- The text with a carriage return loses it. -/
theorem letters_left :
    parse? letters noteArguments = some (.apply writingNotes) ∧
      (run noteArguments [] "" letters).ending.status = 0 ∧
      (∃ c, readChangeSet letters "c.json" = .ok c ∧ (∀ f ∈ c.files, f.action = .modify ∧ f.operations = []) ∧
        (∀ f ∈ c.files, ∀ loc, letters.resolveIn "ws" f.path = .ok loc → letters.Guarded "ws" f.path loc) ∧
        ∀ l, ¬ LogsAt writingNotes [] letters l) ∧
      let after := (run noteArguments [] "" letters).disk
      after.entry? ["ws", "b.txt"] = some (.file "two\n".toUTF8) ∧
        ∃ s, String.fromUTF8? "one\r\n".toUTF8 = some s ∧
          after.entry? ["ws", "a.txt"] = some (.file (String.ofList (unifyLines s.toList)).toUTF8) := by
  have hparse : parse? letters noteArguments = some (.apply writingNotes) := rfl
  have hclosed : letters.Closed := closed_of_entries (by decide +kernel)
  have hplain : ∀ l, letters.linkAt? l = none := linkAt?_of_entries (by decide +kernel)
  have hstatus : (run noteArguments [] "" letters).ending.status = 0 := by decide +kernel
  have hfeeds : ∀ s ∈ String.fromUTF8? "two\n".toUTF8, '\r' ∉ s.toList := by decide +kernel
  have hinput : ∃ c ∈ (readChangeSet letters "c.json").toOption,
      (∀ f ∈ c.files, f.action = .modify ∧ f.operations = []) ∧
      (∀ f ∈ c.files, ∀ loc ∈ (letters.resolveIn "ws" f.path).toOption,
        letters.resolution (letters.resolve "ws") (steps f.path) ≠ .circular loc ∧
          (loc = ["ws", "a.txt"] ∨ loc = ["ws", "b.txt"])) ∧
      (∃ f ∈ c.files, letters.leadsTo "ws" f.path ["ws", "a.txt"] = true) := by
    decide +kernel
  obtain ⟨c, hread, hempty, hplaces, f, hf, hl⟩ := hinput
  have hread := toOption_eq_some_iff.mp hread
  have hguarded : ∀ f ∈ c.files, ∀ loc, letters.resolveIn "ws" f.path = .ok loc →
      letters.Guarded "ws" f.path loc := by
    intro f hf loc hloc
    obtain ⟨hstraight, -⟩ := hplaces f hf loc (toOption_eq_some_iff.mpr hloc)
    exact ⟨fun hcircular => absurd hcircular hstraight, hplain _, hplain _, hplain _⟩
  have hspare (l : Location) (hl : l = ["ws", "a.txt"] ∨ l = ["ws", "b.txt"]) : ∀ f ∈ c.files, ∀ loc,
      letters.resolveIn "ws" f.path = .ok loc → ¬ Scratch loc l := by
    intro f hf loc hloc
    obtain ⟨-, hloc⟩ := hplaces f hf loc (toOption_eq_some_iff.mpr hloc)
    obtain rfl | rfl := hl <;> obtain rfl | rfl := hloc <;> unfold Scratch <;> decide
  have hsettings : ∀ x ∈ (Settings.load letters [] none (.ok writingNotes.overrides)).toOption,
      x.1.logFile = none := by
    decide +kernel
  have hlog (l : Location) : ¬ LogsAt writingNotes [] letters l := by
    rintro ⟨settings, name, hload, file, hfile, -⟩
    cases (hsettings (settings, name) (toOption_eq_some_iff.mpr hload)).symm.trans hfile
  obtain ⟨hkept, -⟩ := run_leaves_texts hparse hread hempty hclosed (by decide) rfl hguarded
    (l := ["ws", "b.txt"]) rfl (hspare _ (.inr rfl)) (fun file h => nomatch h) (hlog _)
  obtain ⟨-, hwritten⟩ := run_leaves_texts hparse hread hempty hclosed (by decide) rfl hguarded
    (l := ["ws", "a.txt"]) rfl (hspare _ (.inl rfl)) (fun file h => nomatch h) (hlog _)
  refine ⟨hparse, hstatus, ⟨c, hread, hempty, hguarded, hlog⟩, hkept fun _ => hfeeds,
    hwritten ⟨f, hf, leadsTo_iff.mp hl⟩ rfl hstatus⟩

end CommandLine

end SourceChange
