import SourceChange.Proofs.Accounting
import SourceChange.Proofs.Batches
import SourceChange.Proofs.Disk.Confinement

/-!
Several changes of one file.

The changes of a path run one after the other from the text that was read, and the results of all paths are
written one after the other. Paths that are spelled differently may lead to one file: then the last of them
decides what the file holds, and what the changes of the others made of it is lost.
-/

namespace SourceChange

open Source

namespace FileChange

/-- What changes make of a text, one after the other. -/
def leaves (settings : Settings) (changes : List FileChange) (text : String) : Option String :=
  (events (.plain settings.validateBindings) [] changes (some text)).foldl History.after (some text)

variable {mode : RunMode} {reserved : List String} {changes : List FileChange} {content : Option String}
  {r : Reader}

/-- A change that is carried out finds a text if it modifies one, and it leaves one unless it deletes. -/
theorem run_succeeded {c : FileChange} {start : Option String}
    (h : ((c.run mode start reserved).run r).1.succeeded = true) :
    (c.action = .modify → start ≠ none) ∧
      (c.action ≠ .delete → ∃ text, ((c.run mode start reserved).run r).1.content = some text) := by
  obtain ⟨-, -, hpresence, hcompletes⟩ := (run_succeeded_iff c mode start reserved r).mp h
  refine ⟨fun haction hnone => ?_, fun haction => ?_⟩
  · have hcreate := hpresence.mpr hnone
    rw [haction] at hcreate
    cases hcreate
  · obtain ⟨p, hp⟩ := hcompletes haction
    rw [hp.run_eq]
    exact ⟨p.text, rfl⟩

/-- Modifications that are all carried out make a text of a text. -/
theorem exists_of_modifies (hmodify : ∀ f ∈ changes, f.action = .modify) (hne : changes ≠ [])
    (hsucceeded : ∀ e ∈ ((runAll mode reserved changes content).run r).1, e.2.succeeded = true) :
    ∃ start text, content = some start ∧
      ((runAll mode reserved changes content).run r).1.foldl History.after content = some text := by
  induction changes generalizing content r with
  | nil => exact absurd rfl hne
  | cons c rest ih =>
    obtain ⟨haction, hmodifyRest⟩ := List.forall_mem_cons.mp hmodify
    have hother : c.action ≠ .delete := by
      rw [haction]
      decide
    rw [runAll, Reader.run_bind, Reader.run_bind, Reader.run_pure] at hsucceeded ⊢
    obtain ⟨hfirst, hrest⟩ := List.forall_mem_cons.mp hsucceeded
    obtain ⟨hpresent, hleft⟩ := run_succeeded hfirst
    obtain ⟨start, rfl⟩ := Option.ne_none_iff_exists'.mp (hpresent haction)
    obtain ⟨text, htext⟩ := hleft hother
    refine ⟨start, ?_⟩
    rw [List.foldl_cons]
    by_cases hlast : rest = []
    · subst hlast
      refine ⟨text, rfl, ?_⟩
      change History.after _ _ = _
      rw [History.after, if_pos hfirst, if_neg hother, htext]
    · obtain ⟨_, left, -, hfinal⟩ := ih hmodifyRest hlast hrest
      exact ⟨left, rfl, hfinal⟩

end FileChange

theorem History.toResult_published_of_some {h : History} {start text : String} (hstart : h.start = some start)
    (hfinal : h.final = some text) : h.toResult.published = some ⟨h.path, text, .modify⟩ := by
  rw [PathResult.published, toResult, hstart, hfinal]

namespace ChangeSet

variable {c : ChangeSet} {settings : Settings} {files : Files} {fresh path : String}

theorem changesOf_ne_nil (hpath : path ∈ c.paths) : c.changesOf path ≠ [] := by
  obtain ⟨f, hf, rfl⟩ := List.mem_map.mp (mem_paths.mp hpath)
  exact List.ne_nil_of_mem (List.mem_filter.mpr ⟨hf, beq_self_eq_true f.path⟩)

theorem paths_filter_eq_nil_iff {leads : String → Bool} :
    c.paths.filter leads = [] ↔ (c.files.filter fun f => leads f.path) = [] := by
  simp only [List.filter_eq_nil_iff, mem_paths, List.forall_mem_map]

/-- Where only one of the paths is chosen, its changes are all those that are chosen. -/
theorem changesOf_eq_filter (leads : String → Bool) (hpath : path ∈ c.paths) (hleads : leads path = true)
    (halike : ∀ f ∈ c.files.filter fun f => leads f.path, ∀ g ∈ c.files.filter fun f => leads f.path,
      f.path = g.path) : c.changesOf path = c.files.filter fun f => leads f.path := by
  obtain ⟨g, hg, rfl⟩ := List.mem_map.mp (mem_paths.mp hpath)
  refine List.filter_congr fun f hf => ?_
  rw [Bool.eq_iff_iff, beq_iff_eq]
  constructor
  · rintro heq
    rw [heq, hleads]
  · intro hf'
    exact halike f (List.mem_filter.mpr ⟨hf, hf'⟩) g (List.mem_filter.mpr ⟨hg, hleads⟩)

section Modifies

variable (hmodify : ∀ f ∈ c.files, f.action = .modify)
include hmodify

/-- A path whose modifications are all carried out had a text and has one. -/
theorem history_of_modifies (hpath : path ∈ c.paths) (around : Circumstances) (r : Reader) :
    let h := ((c.history settings around files path).run r).1
    c.unapplied h = [] → ∃ start text, h.start = some start ∧ h.final = some text ∧ h.applied ≠ [] := by
  intro h hdone
  obtain ⟨failure, hrun⟩ | ⟨ran, rfl, hrun⟩ := c.history_run settings around files path r
  · -- where the work breaks off, nothing is carried out
    have hrecord : c.unapplied h = (c.changesOf path).map fun change => (change, none) := by
      rw [unapplied, show h = c.brokenOff files path failure from congrArg Prod.fst hrun,
        c.record_of_brokenOff rfl]
      exact List.filter_eq_self.mpr fun e he => by obtain ⟨_, -, rfl⟩ := List.mem_map.mp he; rfl
    rw [hrecord, List.map_eq_nil_iff] at hdone
    exact absurd hdone (changesOf_ne_nil hpath)
  · rw [show h = _ from congrArg Prod.fst hrun] at hdone ⊢
    dsimp only at hdone ⊢
    have hchanges : ((FileChange.runAll (.plain settings.validateBindings) (c.reserved files)
        (c.changesOf path) (files.lookup path)).run r).1.map Prod.fst = c.changesOf path :=
      FileChange.runAll_changes (c.changesOf path) (files.lookup path) r
    rw [unapplied, c.record_of_events hchanges, List.filter_eq_nil_iff] at hdone
    have hsucceeded : ∀ e ∈ ((FileChange.runAll (.plain settings.validateBindings) (c.reserved files)
        (c.changesOf path) (files.lookup path)).run r).1, e.2.succeeded = true := by
      intro e he
      simpa using hdone _ (List.mem_map_of_mem he)
    obtain ⟨start, text, hstart, hfinal⟩ := FileChange.exists_of_modifies
      (fun f hf => hmodify f (List.mem_filter.mp hf).1) (changesOf_ne_nil hpath) hsucceeded
    refine ⟨start, text, hstart, hfinal, fun hnone => changesOf_ne_nil hpath ?_⟩
    rw [← hchanges, List.map_eq_nil_iff]
    refine List.eq_nil_iff_forall_not_mem.mpr fun e he => ?_
    exact List.filter_eq_nil_iff.mp hnone e.2 (List.mem_map_of_mem he) (hsucceeded e he)

variable (hcreate : ∀ f ∈ c.files, f.CreatesNothing)
include hcreate

/-- If they create nothing, that text is all that is to be written. -/
theorem historyOf_entries (hpath : path ∈ c.paths)
    (hdone : c.unapplied (c.historyOf settings .calm files path) = []) :
    ∃ start text, files.lookup path = some start ∧
      FileChange.leaves settings (c.changesOf path) start = some text ∧
        (c.historyOf settings .calm files path).entries = [⟨path, text, .modify⟩] := by
  have hran : (c.historyOf settings .calm files path).Ran files (c.reserved files) :=
    c.history_ran settings .calm files path .plain
  have hnew : (c.historyOf settings .calm files path).toResult.created = [] := by
    refine List.eq_nil_iff_forall_not_mem.mpr fun f hf => ?_
    have htext := hran.mem_toResult_created.mp hf
    rw [historyOf_createdText? hcreate] at htext
    cases htext
  obtain ⟨start, text, hstart, hfinal, happlied⟩ := history_of_modifies hmodify hpath .calm .plain hdone
  change (c.historyOf settings .calm files path).start = some start at hstart
  change (c.historyOf settings .calm files path).final = some text at hfinal
  have hlookup : files.lookup path = some start := by
    rw [← hstart, ← c.historyOf_path settings .calm files path]
    exact hran.start.symm
  refine ⟨start, text, hlookup, ?_, ?_⟩
  · have hcalm : c.historyOf settings .calm files path = _ := historyOf_calm hcreate path
    rw [hlookup] at hcalm
    exact (congrArg History.final hcalm).symm.trans hfinal
  · have hsome : ¬ (c.historyOf settings .calm files path).applied.isEmpty = true :=
      mt List.isEmpty_iff.mp happlied
    rw [History.entries, if_neg hsome, hnew, History.toResult_published_of_some hstart hfinal, historyOf_path]
    rfl

/-- Where a run of modifications succeeds, every path has a text to be written, in the order in which the paths
first occur. -/
theorem exists_modified_eq_map (hdiscerns : settings.reader.Discerns (c.apply settings .calm fresh files))
    (hsuccess : ((c.apply settings .calm fresh files).run settings.reader).1.success = true) :
    ∃ left : String → String,
      (∀ path ∈ c.paths, ∃ start, files.lookup path = some start ∧
        FileChange.leaves settings (c.changesOf path) start = some (left path)) ∧
      ((c.apply settings .calm fresh files).run settings.reader).1.modified =
        c.paths.map fun path => ⟨path, left path, .modify⟩ := by
  have hall : ((c.histories settings .calm files).run settings.reader).1 = _ :=
    histories_of_discerns Settings.Reaches.start.exact hdiscerns
  have hdone := (c.errors_eq_nil_iff settings .calm fresh files settings.reader).mp
    (List.isEmpty_iff.mp hsuccess)
  obtain ⟨-, hmodified, -⟩ := c.apply_reports settings .calm fresh files settings.reader
  rw [hall] at hdone hmodified
  have hentries : ∀ path ∈ c.paths, _ := fun path hpath =>
    historyOf_entries hmodify hcreate hpath (hdone _ (List.mem_map_of_mem hpath)).2
  choose! start left hstart hleft hpublished using hentries
  refine ⟨left, fun path hpath => ⟨start path, hstart path hpath, hleft path hpath⟩, ?_⟩
  rw [hmodified, (createApart_of_creates_nothing hcreate).standing_eq, List.flatMap_map,
    List.flatMap_congr hpublished, List.map_eq_flatMap]

end Modifies

end ChangeSet

namespace Disk

open SourceChange.Path

variable {d d' : Disk} {workspace path : String} {m : ModifiedFile} {ms : List ModifiedFile} {l : Location}

/-- Whether a path leads to a place of a workspace. -/
def leadsTo (d : Disk) (workspace path : String) (l : Location) : Bool :=
  (d.resolveIn workspace path).toOption == some l

theorem leadsTo_iff : d.leadsTo workspace path l = true ↔ d.resolveIn workspace path = .ok l := by
  rw [leadsTo, beq_iff_eq, toOption_eq_some_iff]

/-- Files of a result that are to be modified where they are, with no link in the way. -/
structure Overwritable (d : Disk) (workspace : String) (ms : List ModifiedFile) : Prop where
  closed : d.Closed
  current : ∀ n ∈ d.current, IsName n
  modify : ∀ m ∈ ms, m.action = .modify
  unlinked : ∀ m ∈ ms, ∀ loc, d.resolveIn workspace m.path = .ok loc → d.Unlinked loc
  above : ∀ m ∈ ms, ∀ loc, d.resolveIn workspace m.path = .ok loc →
    ∀ q, q <+: loc → q ≠ loc → d.entry? q = some .directory

namespace Overwritable

theorem tail (h : d.Overwritable workspace (m :: ms)) : d.Overwritable workspace ms where
  closed := h.closed
  current := h.current
  modify := (List.forall_mem_cons.mp h.modify).2
  unlinked := (List.forall_mem_cons.mp h.unlinked).2
  above := (List.forall_mem_cons.mp h.above).2

theorem keeps {touched : Location → Prop} (h : d.Overwritable workspace ms) (hkeeps : Keeps d d' touched) :
    d'.Overwritable workspace ms where
  closed := hkeeps.closed
  current := by
    rw [hkeeps.current]
    exact h.current
  modify := h.modify
  unlinked m hm loc hloc := hkeeps.unlinked (h.unlinked m hm loc (hkeeps.resolveIn_before hloc))
  above m hm loc hloc q hq hne := hkeeps.directories q (h.above m hm loc (hkeeps.resolveIn_before hloc) q hq hne)

theorem leadsTo_eq {touched : Location → Prop} (h : d.Overwritable workspace ms) (hkeeps : Keeps d d' touched)
    (hm : m ∈ ms) (l : Location) : d'.leadsTo workspace m.path l = d.leadsTo workspace m.path l := by
  rw [Bool.eq_iff_iff, leadsTo_iff, leadsTo_iff]
  exact ⟨hkeeps.resolveIn_before, fun hl => hkeeps.resolveIn_after h.current (h.unlinked m hm l hl).clear hl⟩

end Overwritable

end Disk

namespace CommandLine

open Disk SourceChange.Path

variable {d d' : Disk} {workspace : String} {m : ModifiedFile} {ms : List ModifiedFile} {l : Location}

/-- What stands at a place once a file is written that leads there or elsewhere. -/
theorem publishFile_entry? (hp : d.Overwritable workspace (m :: ms))
    (hspare : ∀ loc, d.resolveIn workspace m.path = .ok loc → l ≠ beside loc ".tmp" ∧ l ≠ beside loc ".bak")
    (h : publishFile d workspace m = .written d') :
    (∃ touched, Keeps d d' touched) ∧
      d'.entry? l = if d.leadsTo workspace m.path l then some (.file m.content.toUTF8) else d.entry? l := by
  have hunlinked := (List.forall_mem_cons.mp hp.unlinked).1
  have haction := (List.forall_mem_cons.mp hp.modify).1
  obtain ⟨-, loc, hloc, hkeeps, hshows⟩ := publishFile_written hp.closed hp.current hunlinked h
  refine ⟨⟨_, hkeeps⟩, ?_⟩
  split
  case isTrue hl =>
    obtain rfl := Except.ok.inj ((leadsTo_iff.mp hl).symm.trans hloc)
    rw [Shows, if_neg (by rw [haction]; decide)] at hshows
    have hclear := hkeeps.clear (hunlinked l hloc).clear
    exact (content?_pathOf (isName_of_resolveIn hp.current hloc) hclear hkeeps.closed).mp hshows
  case isFalse hl =>
    have hne : l ≠ loc := by
      rintro rfl
      exact hl (leadsTo_iff.mpr hloc)
    by_cases habove : l <+: loc
    · -- the directories above the file are there already
      have hdirectory := (List.forall_mem_cons.mp hp.above).1 loc hloc l habove hne
      rw [hkeeps.directories l hdirectory, hdirectory]
    · obtain ⟨htemporary, hbackup⟩ := hspare loc hloc
      exact hkeeps.others l (not_or.mpr ⟨habove, not_or.mpr ⟨htemporary, hbackup⟩⟩)

/-- Of the files that lead to one place the last one decides what stands there in the end. -/
theorem publish_overwrites {skipped skipped' : List String}
    (h : publish workspace ms d skipped = (d', skipped', none)) (hp : d.Overwritable workspace ms)
    (hspare : ∀ m ∈ ms, ∀ loc, d.resolveIn workspace m.path = .ok loc →
      l ≠ beside loc ".tmp" ∧ l ≠ beside loc ".bak") :
    d'.entry? l = ((ms.filter fun m => d.leadsTo workspace m.path l).getLast?).elim (d.entry? l)
      fun m => some (.file m.content.toUTF8) := by
  induction ms generalizing d skipped with
  | nil =>
    obtain ⟨rfl, -⟩ := Prod.mk.inj h
    rfl
  | cons m ms ih =>
    obtain ⟨hspare, hspareRest⟩ := List.forall_mem_cons.mp hspare
    rw [publish] at h
    split at h
    case h_1 _ between hwritten =>
      obtain ⟨⟨touched, hkeeps⟩, hentry⟩ := publishFile_entry? hp hspare hwritten
      have hleads : ∀ a ∈ ms, between.leadsTo workspace a.path l = d.leadsTo workspace a.path l :=
        fun a ha => hp.tail.leadsTo_eq hkeeps ha l
      have hlast := ih h (hp.tail.keeps hkeeps) fun a ha loc hloc =>
        hspareRest a ha loc (hkeeps.resolveIn_before hloc)
      rw [List.filter_congr hleads, hentry] at hlast
      rw [hlast, List.filter_cons]
      split
      case isTrue =>
        rw [List.getLast?_cons]
        cases (ms.filter fun m => d.leadsTo workspace m.path l).getLast? with
        | none => rfl
        | some last => rfl
      case isFalse => rfl
    case h_2 _ between hskipped =>
      have hunlinked := (List.forall_mem_cons.mp hp.unlinked).1
      obtain ⟨rfl, hleft⟩ := publishFile_skipped hp.closed hp.current hunlinked hskipped
      have hnowhere : ¬ between.leadsTo workspace m.path l = true := by
        intro hl
        rw [leavesOut_of_ok (leadsTo_iff.mp hl), (List.forall_mem_cons.mp hp.modify).1] at hleft
        cases hleft
      rw [ih h hp.tail hspareRest, List.filter_cons, if_neg hnowhere]
    case h_3 =>
      obtain ⟨-, hrest⟩ := Prod.mk.inj h
      cases (Prod.mk.inj hrest).2

/-- A place that some file leads to has in the end the content of a file that leads there. -/
theorem publish_of_mem {skipped skipped' : List String}
    (h : publish workspace ms d skipped = (d', skipped', none)) (hp : d.Overwritable workspace ms)
    (hspare : ∀ m ∈ ms, ∀ loc, d.resolveIn workspace m.path = .ok loc →
      l ≠ beside loc ".tmp" ∧ l ≠ beside loc ".bak")
    (hm : m ∈ ms) (hl : d.resolveIn workspace m.path = .ok l) :
    ∃ last ∈ ms, d.resolveIn workspace last.path = .ok l ∧ d'.entry? l = some (.file last.content.toUTF8) := by
  have hentry := publish_overwrites h hp hspare
  have hmem : m ∈ ms.filter fun m => d.leadsTo workspace m.path l := List.mem_filter.mpr ⟨hm, leadsTo_iff.mpr hl⟩
  obtain ⟨last, hlast⟩ := Option.isSome_iff_exists.mp (List.getLast?_isSome.mpr (List.ne_nil_of_mem hmem))
  obtain ⟨hin, hleads⟩ := List.mem_filter.mp (List.mem_of_getLast? hlast)
  rw [hlast] at hentry
  exact ⟨last, hin, leadsTo_iff.mp hleads, hentry⟩

/-- The same of one text for every path, on a disk on which another place may have changed before. -/
theorem publish_paths {before : Disk} {paths : List String} {left : String → String} {touched : Location → Prop}
    {skipped skipped' : List String}
    (h : publish workspace (paths.map fun path => ⟨path, left path, .modify⟩) before skipped =
      (d', skipped', none))
    (hp : d.Overwritable workspace (paths.map fun path => ⟨path, left path, .modify⟩))
    (hkeeps : Keeps d before touched)
    (hspare : ∀ path ∈ paths, ∀ loc, d.resolveIn workspace path = .ok loc →
      l ≠ beside loc ".tmp" ∧ l ≠ beside loc ".bak") :
    d'.entry? l = ((paths.filter fun path => d.leadsTo workspace path l).getLast?).elim (before.entry? l)
      fun path => some (.file (left path).toUTF8) := by
  have hleads : ∀ path ∈ paths, d.leadsTo workspace path l = before.leadsTo workspace path l :=
    fun path hpath => (hp.leadsTo_eq hkeeps (List.mem_map_of_mem hpath) l).symm
  have hentry := publish_overwrites h (hp.keeps hkeeps) (List.forall_mem_map.mpr fun path hpath loc hloc =>
    hspare path hpath loc (hkeeps.resolveIn_before hloc))
  rw [List.filter_map, List.getLast?_map, Option.elim_map] at hentry
  rw [List.filter_congr hleads]
  exact hentry

/-! ### Runs -/

variable {disk start : Disk} {args : List String} {host : Host} {o : ApplyOptions} {env : Environment} {fresh : String}
  {settings : Settings} {name : Option String} {c : ChangeSet} {files : Files}

/-- What stands at a place in the end is what changes made of the text that was read there. -/
def Revised (settings : Settings) (changes : List FileChange) (l : Location) (disk after : Disk) : Prop :=
  ∃ text left, disk.readText (pathOf l) = .ok text ∧ FileChange.leaves settings changes text = some left ∧
    after.entry? l = some (.file left.toUTF8)

section Plain

variable (hd : disk.Closed) (hworkspace : disk.isDirectory o.workspace = true)
  (hplain : ∀ l, disk.resolve o.workspace <+: l → disk.linkAt? l = none)
include hd hworkspace hplain

theorem clear_of_plain {path : String} (hloc : disk.resolveIn o.workspace path = .ok l) : disk.Clear l := by
  intro q hq
  have hbelow := prefix_of_resolveIn hworkspace hloc
  obtain habove | hinside := List.prefix_or_prefix_of_prefix hq hbelow
  · exact hd.clear (exists_root hworkspace).2 q habove
  · exact hplain q hinside

/-- In a workspace without links every file that was read can be overwritten. -/
theorem overwritable_of_plain (hcurrent : ∀ n ∈ disk.current, IsName n) (hload : loadAll disk o = .ok (c, files))
    (hmodify : ∀ m ∈ ms, m.action = .modify) (hread : ∀ m ∈ ms, ∃ text, files.lookup m.path = some text) :
    disk.Overwritable o.workspace ms := by
  obtain ⟨-, -, hfiles⟩ := loadAll_eq_ok hload
  have hfile : ∀ m ∈ ms, ∀ loc, disk.resolveIn o.workspace m.path = .ok loc →
      ∃ bytes, disk.entry? loc = some (.file bytes) := by
    intro m hm loc hloc
    obtain ⟨text, htext⟩ := hread m hm
    obtain ⟨-, bytes, -, hbytes, -⟩ := loadFile_eq_some (hfiles m.path text htext) hd hcurrent hloc
      (clear_of_plain hd hworkspace hplain hloc)
    exact ⟨bytes, hbytes⟩
  refine ⟨hd, hcurrent, hmodify, fun m hm loc hloc => ?_, fun m hm loc hloc => ?_⟩
  · obtain ⟨bytes, hbytes⟩ := hfile m hm loc hloc
    have hne : loc ≠ disk.resolve o.workspace := by
      rintro rfl
      rw [(exists_root hworkspace).2] at hbytes
      cases hbytes
    have hbelow := prefix_dropLast_of_ne (prefix_of_resolveIn hworkspace hloc) hne
    exact ⟨clear_of_plain hd hworkspace hplain hloc, hplain _ (prefix_beside hbelow _),
      hplain _ (prefix_beside hbelow _)⟩
  · obtain ⟨bytes, hbytes⟩ := hfile m hm loc hloc
    exact hd loc (by simp [hbytes])

end Plain

section Opened

variable {touched : Location → Prop} (hkeeps : Keeps disk start touched)
include hkeeps

theorem plain_of_keeps (hplain : ∀ l, disk.resolve o.workspace <+: l → disk.linkAt? l = none) :
    ∀ l, start.resolve o.workspace <+: l → start.linkAt? l = none := by
  intro l hl
  rw [hkeeps.links]
  refine hplain l ?_
  rwa [resolve, hkeeps.current, resolution_congr hkeeps.links] at hl

/-- In a workspace without links a path leads to the same place, whatever else changes. -/
theorem leadsTo_of_plain (hd : disk.Closed) (hworkspace : disk.isDirectory o.workspace = true)
    (hplain : ∀ l, disk.resolve o.workspace <+: l → disk.linkAt? l = none) (hcurrent : ∀ n ∈ disk.current, IsName n)
    (path : String) (l : Location) : start.leadsTo o.workspace path l = disk.leadsTo o.workspace path l := by
  rw [Bool.eq_iff_iff, leadsTo_iff, leadsTo_iff]
  exact ⟨hkeeps.resolveIn_before, fun hl => hkeeps.resolveIn_after hcurrent (clear_of_plain hd hworkspace hplain hl) hl⟩

end Opened

/-- What writing the modified texts leaves of a place, in terms of the texts that were read. -/
theorem publish_revises {left : String → String} {before after : Disk} {touched : Location → Prop}
    {skipped : List String} (hready : Ready start o.workspace)
    (hplain : ∀ l, start.resolve o.workspace <+: l → start.linkAt? l = none)
    (hload : loadAll start o = .ok (c, files))
    (hleft : ∀ path ∈ c.paths, ∃ text, files.lookup path = some text ∧
      FileChange.leaves settings (c.changesOf path) text = some (left path))
    (hbefore : Rewrites start before touched)
    (hpublish : publish o.workspace (c.paths.map fun path => ⟨path, left path, .modify⟩) before [] =
      (after, skipped, none))
    (hspare : ∀ f ∈ c.files, ∀ loc, start.resolveIn o.workspace f.path = .ok loc →
      l ≠ beside loc ".tmp" ∧ l ≠ beside loc ".bak") :
    let changes := c.files.filter fun f => start.leadsTo o.workspace f.path l
    (∀ path, (c.paths.filter fun path => start.leadsTo o.workspace path l).getLast? = some path →
      Revised settings (c.changesOf path) l start after) ∧
    (changes ≠ [] → (∀ f ∈ changes, ∀ g ∈ changes, f.path = g.path) → Revised settings changes l start after) ∧
    (changes = [] → after.entry? l = before.entry? l) := by
  intro changes
  obtain ⟨-, -, hfiles⟩ := loadAll_eq_ok hload
  have hp : start.Overwritable o.workspace (c.paths.map fun path => ⟨path, left path, .modify⟩) := by
    refine overwritable_of_plain hready.closed hready.workspace hplain hready.current hload ?_ ?_
    · exact List.forall_mem_map.mpr fun path hpath => rfl
    · exact List.forall_mem_map.mpr fun path hpath => (hleft path hpath).imp fun text h => h.1
  have hlast := publish_paths hpublish hp hbefore.toKeeps fun path hpath loc hloc => by
    obtain ⟨f, hf, rfl⟩ := List.mem_map.mp (ChangeSet.mem_paths.mp hpath)
    exact hspare f hf loc hloc
  have hrevised : ∀ path, (c.paths.filter fun path => start.leadsTo o.workspace path l).getLast? = some path →
      path ∈ c.paths ∧ start.leadsTo o.workspace path l = true ∧
        Revised settings (c.changesOf path) l start after := by
    intro path hpath
    obtain ⟨hmem, hl⟩ := List.mem_filter.mp (List.mem_of_getLast? hpath)
    obtain ⟨text, htext, hleft⟩ := hleft path hmem
    have hloc := leadsTo_iff.mp hl
    obtain ⟨hread, -⟩ := loadFile_eq_some (hfiles path text htext) hready.closed hready.current hloc
      (clear_of_plain hready.closed hready.workspace hplain hloc)
    refine ⟨hmem, hl, text, left path, hread, hleft, ?_⟩
    rw [hlast, hpath]
    rfl
  refine ⟨fun path hpath => (hrevised path hpath).2.2, fun hne halike => ?_, fun hnone => ?_⟩
  · have hsome : (c.paths.filter fun path => start.leadsTo o.workspace path l) ≠ [] := fun hnone =>
      hne (ChangeSet.paths_filter_eq_nil_iff.mp hnone)
    obtain ⟨path, hpath⟩ := Option.isSome_iff_exists.mp (List.getLast?_isSome.mpr hsome)
    obtain ⟨hmem, hl, h⟩ := hrevised path hpath
    rwa [ChangeSet.changesOf_eq_filter (start.leadsTo o.workspace · l) hmem hl halike] at h
  · rw [hlast, ChangeSet.paths_filter_eq_nil_iff.mpr hnone]
    rfl

/-- Where modifications that create no files are all written to a workspace without links, every file holds in
the end what the changes of one path made of the text that was read: of the last path that leads to it, in the
order in which the paths first occur. So no change is lost if the paths that lead to the file are spelled
alike. A file that no path leads to stays as it was, unless a temporary file, a backup or the log takes its place.
The texts are read once the log is open. -/
theorem run_revises (hparse : parse? disk args = some (.apply o)) (hwrite : o.write = true)
    (hsettings : Settings.load disk env o.config (.ok o.overrides) = .ok (settings, name))
    (hopen : openLog? disk settings.logFile = some start) (hload : loadAll start o = .ok (c, files))
    (hdiscerns : settings.reader.Discerns (c.apply settings .calm fresh files))
    (hmodify : ∀ f ∈ c.files, f.action = .modify) (hcreate : ∀ f ∈ c.files, f.CreatesNothing)
    (hd : disk.Closed) (hcurrent : ∀ n ∈ disk.current, IsName n)
    (hhere : disk.entry? disk.current = some .directory)
    (hplain : ∀ l, disk.resolve o.workspace <+: l → disk.linkAt? l = none)
    (hstatus : (run args env fresh disk host).ending.status = 0)
    (hspare : ∀ f ∈ c.files, ∀ loc, disk.resolveIn o.workspace f.path = .ok loc →
      l ≠ beside loc ".tmp" ∧ l ≠ beside loc ".bak") :
    let after := (run args env fresh disk host).disk
    let changes := c.files.filter fun f => disk.leadsTo o.workspace f.path l
    (∀ path, (c.paths.filter fun path => disk.leadsTo o.workspace path l).getLast? = some path →
      Revised settings (c.changesOf path) l start after) ∧
    (changes ≠ [] → (∀ f ∈ changes, ∀ g ∈ changes, f.path = g.path) → Revised settings changes l start after) ∧
    (changes = [] → (∀ file, o.output = some file → disk.place? file ≠ some l) → ¬ LogsAt o env disk l →
      after.entry? l = disk.entry? l) := by
  intro after changes
  have hready : Ready disk o.workspace := ⟨hd, hcurrent, hhere, isDirectory_of_parse? hparse⟩
  obtain ⟨hopened, -⟩ := openLog?_rewrites hd hhere hopen
  have hreadyStart := hready.rewrites hopened
  have hleads (path : String) : disk.leadsTo o.workspace path l = start.leadsTo o.workspace path l :=
    (leadsTo_of_plain hopened.toKeeps hd hready.workspace hplain hcurrent path l).symm
  have hpaths : (c.paths.filter fun path => disk.leadsTo o.workspace path l) =
      c.paths.filter fun path => start.leadsTo o.workspace path l := List.filter_congr fun path _ => hleads path
  have hchanges : changes = c.files.filter fun f => start.leadsTo o.workspace f.path l :=
    List.filter_congr fun f _ => hleads f.path
  rw [hpaths, hchanges]
  have hrun : run args env fresh disk host = runApply host o env fresh disk := by rw [run, hparse]
  obtain ⟨r, before, lines, hresult, hfinish⟩ := exists_result_of_status (hrun ▸ hstatus)
  rw [hrun, hfinish] at hstatus
  obtain ⟨hsuccess, skipped, hpublish, -⟩ := publish_of_status hwrite hstatus
  rw [← hfinish, ← hrun] at hpublish
  obtain ⟨_, _, _, _, _, hsettings', hopen', hload', rfl, hbefore⟩ := exists_of_result? hresult
  obtain ⟨rfl, rfl⟩ := Prod.mk.inj (Except.ok.inj (hsettings.symm.trans hsettings'))
  obtain rfl := Option.some.inj (hopen.symm.trans hopen')
  obtain ⟨rfl, rfl⟩ := Prod.mk.inj (Except.ok.inj (hload.symm.trans hload'))
  obtain ⟨left, hleft, hmodified⟩ := ChangeSet.exists_modified_eq_map hmodify hcreate hdiscerns hsuccess
  rw [hmodified] at hpublish
  obtain ⟨hlast, halike, hnone⟩ := publish_revises hreadyStart (plain_of_keeps hopened.toKeeps hplain) hload hleft
    (before_rewrites hreadyStart.closed hreadyStart.here hbefore) hpublish fun f hf loc hloc =>
      hspare f hf loc (hopened.resolveIn_before hloc)
  refine ⟨hlast, halike, fun hempty hother hnolog => ?_⟩
  have hlog : ¬ LogsTo disk settings.logFile l := fun hlog => hnolog ⟨_, _, hsettings, hlog⟩
  rw [hnone hempty, entry_eq_of_before hready hopen hbefore hother hlog]
  exact hopened.others l hlog

/-- Two lists. One is named by two paths that are spelled differently, and only the first asks for a change. -/
def lists : Disk :=
  ⟨[(["c.json"], .file ("\x7b\"files\":[\x7b\"path\":\"a.txt\",\"changes\":" ++
        "[\x7b\"type\":\"Append\",\"content\":\"two\"\x7d]\x7d," ++
        "\x7b\"path\":\"./a.txt\"\x7d,\x7b\"path\":\"b.txt\"\x7d]\x7d").toUTF8),
    (["ws"], .directory), (["ws", "a.txt"], .file "one\n".toUTF8), (["ws", "b.txt"], .file "one\n".toUTF8)], []⟩

/-- Of the list with two paths only what the second path leaves of it is written, and the change is lost. -/
theorem lists_revised :
    parse? lists noteArguments = some (.apply writingNotes) ∧ (run noteArguments [] "" lists).ending.status = 0 ∧
      ∃ settings name c files, Settings.load lists [] none (.ok writingNotes.overrides) = .ok (settings, name) ∧
        openLog? lists settings.logFile = some lists ∧ loadAll lists writingNotes = .ok (c, files) ∧
        settings.reader.Discerns (c.apply settings .calm "" files) ∧
        (∀ f ∈ c.files, f.action = .modify) ∧ (∀ f ∈ c.files, f.CreatesNothing) ∧
        let after := (run noteArguments [] "" lists).disk
        Revised settings (c.changesOf "./a.txt") ["ws", "a.txt"] lists after ∧
        after.content? "/ws/a.txt" = some "one\n".toUTF8 ∧
        Revised settings (c.files.filter fun f => lists.leadsTo "ws" f.path ["ws", "b.txt"]) ["ws", "b.txt"]
          lists after := by
  have hparse : parse? lists noteArguments = some (.apply writingNotes) := rfl
  have hclosed : lists.Closed := closed_of_entries (by decide +kernel)
  have hplain : ∀ l, lists.linkAt? l = none := linkAt?_of_entries (by decide +kernel)
  have hrun : (run noteArguments [] "" lists).ending.status = 0 ∧
      (run noteArguments [] "" lists).disk.content? "/ws/a.txt" = some "one\n".toUTF8 := by
    decide +kernel
  have hinput : ∃ x ∈ (Settings.load lists [] none (.ok writingNotes.overrides)).toOption,
      ∃ y ∈ (loadAll lists writingNotes).toOption, x.1.logFile = none ∧
        x.1.reader.Discerns (y.1.apply x.1 .calm "" y.2) ∧ (∀ f ∈ y.1.files, f.action = .modify) ∧
        (∀ f ∈ y.1.files, f.CreatesNothing) ∧
        (∀ f ∈ y.1.files, ∀ loc ∈ (lists.resolveIn "ws" f.path).toOption,
          loc = ["ws", "a.txt"] ∨ loc = ["ws", "b.txt"]) ∧
        (y.1.paths.filter fun path => lists.leadsTo "ws" path ["ws", "a.txt"]).getLast? = some "./a.txt" ∧
        (y.1.files.filter fun f => lists.leadsTo "ws" f.path ["ws", "b.txt"]).map (·.path) = ["b.txt"] := by
    decide +kernel
  obtain ⟨hstatus, hcontent⟩ := hrun
  obtain ⟨⟨settings, name⟩, hsettings, ⟨c, files⟩, hload, hlog, hdiscerns, hmodify, hcreate, hplaces, hlast, hone⟩ :=
    hinput
  have hopen : openLog? lists settings.logFile = some lists := by
    rw [show settings.logFile = none from hlog]
    rfl
  have hsettings := toOption_eq_some_iff.mp hsettings
  have hload := toOption_eq_some_iff.mp hload
  have hrevised (l : Location) (hl : l = ["ws", "a.txt"] ∨ l = ["ws", "b.txt"]) :=
    run_revises (l := l) hparse rfl hsettings hopen hload hdiscerns hmodify hcreate hclosed (by decide) rfl
      (fun l _ => hplain l) hstatus fun f hf loc hloc => by
        have hloc := hplaces f hf loc (toOption_eq_some_iff.mpr hloc)
        obtain rfl | rfl := hl <;> obtain rfl | rfl := hloc <;> decide
  obtain ⟨hfirst, -, -⟩ := hrevised ["ws", "a.txt"] (.inl rfl)
  obtain ⟨-, hsecond, -⟩ := hrevised ["ws", "b.txt"] (.inr rfl)
  obtain ⟨f, hsingle, -⟩ := List.map_eq_singleton_iff.mp hone
  refine ⟨hparse, hstatus, settings, name, c, files, hsettings, hopen, hload, hdiscerns, hmodify, hcreate,
    hfirst "./a.txt" hlast, hcontent, hsecond ?_ ?_⟩
  · exact fun hnone => List.cons_ne_nil f [] (hsingle.symm.trans hnone)
  · intro g hg k hk
    have hg : g ∈ [f] := hsingle ▸ hg
    have hk : k ∈ [f] := hsingle ▸ hk
    rw [List.mem_singleton.mp hg, List.mem_singleton.mp hk]

end CommandLine

end SourceChange
