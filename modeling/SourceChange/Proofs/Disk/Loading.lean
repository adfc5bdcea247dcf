import SourceChange.Proofs.Disk.Publishing
import SourceChange.Proofs.Disk.Ways
import SourceChange.Proofs.Publication

/-!
What a run reads, and what becomes of it.

The files that a change set names are read before anything is written, each at its place in the workspace. A
run that comes to a result writes it to the disk that it read; every other run leaves the disk as it was, but for
its log.
-/

namespace SourceChange

/-- A file that is modified had a text before. -/
theorem ChangeSet.exists_text_of_modified {c : ChangeSet} {settings : Settings} {around : Circumstances}
    {fresh : String} {files : Files} {r : Source.Reader} {m : ModifiedFile}
    (hm : m ∈ ((c.apply settings around fresh files).run r).1.modified) (haction : m.action = .modify) :
    ∃ text, files.lookup m.path = some text := by
  have hapart := c.histories_apart settings around files r
  rw [c.apply_modified, hapart.mem_modified] at hm
  obtain ⟨h, hstanding, ⟨-, hpublished⟩ | ⟨-, hcreate⟩⟩ := hm
  · have hstart := (hapart.of_standing.ran h hstanding).start
    rw [History.toResult_published_path hpublished, ← hstart]
    unfold PathResult.published at hpublished
    split at hpublished
    case h_4 hpresent => exact ⟨_, hpresent⟩
    all_goals
      cases hpublished
      try cases haction
  · rw [hcreate] at haction
    cases haction

namespace CommandLine

open Disk SourceChange.Path

variable {disk start before d : Disk} {workspace path : String} {host : Host} {o : ApplyOptions} {env : Environment}
  {fresh : String} {r : ApplyResult} {l : Location}

/-- Reading a path finds the text of a file at its place, or nothing there. -/
theorem loadFile_eq_ok {found : Option String} (h : loadFile disk workspace path = .ok found) :
    ∃ loc, disk.resolveIn workspace path = .ok loc ∧
      (disk.lookup? (pathOf loc) = none ∧ found = none ∨
        ∃ bytes s, disk.lookup? (pathOf loc) = some (.file bytes) ∧ String.fromUTF8? bytes = some s ∧
          found = some (String.ofList (unifyLines s.toList))) := by
  rw [loadFile] at h
  split at h
  case isTrue => cases h
  case isFalse =>
    obtain ⟨loc, hloc, h⟩ := bind_eq_ok_iff.mp h
    have hresolved : disk.resolveIn workspace path = .ok loc := by
      cases hcase : disk.resolveIn workspace path with
      | error fault =>
        rw [hcase] at hloc
        cases hloc
      | ok found =>
        rw [hcase] at hloc
        obtain rfl := Except.ok.inj hloc
        rfl
    refine ⟨loc, hresolved, ?_⟩
    cases hlookup : disk.lookup? (pathOf loc) with
    | none =>
      simp only [hasFittingFile?, hlookup] at h
      exact .inl ⟨rfl, (Except.ok.inj h).symm⟩
    | some e =>
      cases e with
      | file bytes =>
        refine .inr ⟨bytes, ?_⟩
        simp only [hasFittingFile?, hlookup, readText, exactText, content?] at h
        cases hsize : decide (bytes.size ≤ maxFileSize) with
        | false =>
          rw [hsize] at h
          cases h
        | true =>
          rw [hsize] at h
          cases hs : String.fromUTF8? bytes with
          | none =>
            rw [hs] at h
            cases h
          | some s =>
            rw [hs] at h
            exact ⟨s, rfl, rfl, (Except.ok.inj h).symm⟩
      | directory =>
        simp only [hasFittingFile?, hlookup] at h
        cases h
      | link target =>
        simp only [hasFittingFile?, hlookup] at h
        cases h

theorem readText_of_lookup? {p s : String} {bytes : ByteArray} (h : disk.lookup? p = some (.file bytes))
    (hs : String.fromUTF8? bytes = some s) : disk.readText p = .ok (String.ofList (unifyLines s.toList)) := by
  rw [readText, exactText, content?, h]
  dsimp only
  rw [hs]
  rfl

/-- Where no link is in the way, the text that is read is that of the file at the place of its path. -/
theorem loadFile_eq_some {text : String} {loc : Location} (h : loadFile disk workspace path = .ok (some text))
    (hd : disk.Closed) (hcurrent : ∀ n ∈ disk.current, IsName n)
    (hloc : disk.resolveIn workspace path = .ok loc) (hclear : disk.Clear loc) :
    disk.readText (pathOf loc) = .ok text ∧ ∃ bytes s, disk.entry? loc = some (.file bytes) ∧
      String.fromUTF8? bytes = some s ∧ text = String.ofList (unifyLines s.toList) := by
  obtain ⟨found, hfound, ⟨-, hnone⟩ | ⟨bytes, s, hlookup, hs, htext⟩⟩ := loadFile_eq_ok h
  · cases hnone
  · obtain rfl := Except.ok.inj (hloc.symm.trans hfound)
    obtain rfl := Option.some.inj htext
    have hread := readText_of_lookup? hlookup hs
    rw [lookup?_pathOf (isName_of_resolveIn hcurrent hloc) hclear hd] at hlookup
    exact ⟨hread, bytes, s, hlookup, hs, rfl⟩

/-- Texts that were read stay, and every text comes from reading its path. -/
theorem loadFiles_extends {paths : List String} {files loaded : Files}
    (h : loadFiles disk workspace paths files = .ok loaded)
    (hfiles : ∀ p text, files.lookup p = some text → loadFile disk workspace p = .ok (some text)) :
    (∀ p text, files.lookup p = some text → loaded.lookup p = some text) ∧
      (∀ p text, loaded.lookup p = some text → loadFile disk workspace p = .ok (some text)) ∧
        ∀ p ∈ paths, loadFile disk workspace p = .ok (loaded.lookup p) := by
  induction paths generalizing files with
  | nil =>
    obtain rfl := Except.ok.inj h
    exact ⟨fun _ _ => id, hfiles, by simp⟩
  | cons path paths ih =>
    rw [loadFiles] at h
    split at h
    case isTrue hthere =>
      obtain ⟨hstay, hread, hpaths⟩ := ih h hfiles
      obtain ⟨text, htext⟩ := Option.isSome_iff_exists.mp hthere
      refine ⟨hstay, hread, List.forall_mem_cons.mpr ⟨?_, hpaths⟩⟩
      rw [hstay path text htext, hfiles path text htext]
    case isFalse hnew =>
      obtain ⟨found, hfound, h⟩ := bind_eq_ok_iff.mp h
      cases found with
      | none =>
        obtain ⟨hstay, hread, hpaths⟩ := ih h hfiles
        refine ⟨hstay, hread, List.forall_mem_cons.mpr ⟨?_, hpaths⟩⟩
        cases hloaded : loaded.lookup path with
        | none => exact hfound
        | some text => rw [hread path text hloaded] at hfound; cases hfound
      | some text =>
        have hset (p : String) := Files.lookup_set files path text p
        have hadded : ∀ p text', (files.set path text).lookup p = some text' →
            loadFile disk workspace p = .ok (some text') := by
          intro p text' hp
          rw [hset] at hp
          split at hp
          case isTrue heq => rw [heq, hfound, hp]
          case isFalse => exact hfiles p text' hp
        obtain ⟨hstay, hread, hpaths⟩ := ih h hadded
        refine ⟨fun p text' hp => hstay p text' ?_, hread, List.forall_mem_cons.mpr ⟨?_, hpaths⟩⟩
        · have hne : p ≠ path := by
            rintro rfl
            simp [hp] at hnew
          rw [hset, if_neg hne, hp]
        · rw [hfound, hstay path text (by rw [hset, if_pos rfl])]

/-- The files of a run: every path that the change set names is read, and no other. -/
theorem loadAll_eq_ok {c : ChangeSet} {files : Files} (h : loadAll disk o = .ok (c, files)) :
    readChangeSet disk o.changeSet = .ok c ∧
      (∀ f ∈ c.files, loadFile disk o.workspace f.path = .ok (files.lookup f.path)) ∧
        ∀ p text, files.lookup p = some text → loadFile disk o.workspace p = .ok (some text) := by
  obtain ⟨c', hread, h⟩ := bind_eq_ok_iff.mp h
  obtain ⟨files', hfiles, h⟩ := bind_eq_ok_iff.mp h
  obtain ⟨rfl, rfl⟩ := Prod.mk.inj (Except.ok.inj h)
  obtain ⟨-, htexts, hpaths⟩ := loadFiles_extends hfiles fun p text hp => by cases hp
  exact ⟨hread, fun f hf => hpaths f.path (List.mem_map_of_mem hf), htexts⟩

/-! ### Logs -/

/-- A log is kept at a place. -/
def LogsTo (disk : Disk) (log : Option String) (l : Location) : Prop :=
  ∃ file, log = some file ∧ disk.place? (logPath disk file) = some l

/-- A run has its log at a place. -/
def LogsAt (o : ApplyOptions) (env : Environment) (disk : Disk) (l : Location) : Prop :=
  ∃ settings name, Settings.load disk env o.config (.ok o.overrides) = .ok (settings, name) ∧
    LogsTo disk settings.logFile l

theorem entry?_origin (hhere : disk.entry? disk.current = some .directory) (path : String) :
    disk.entry? (origin path disk.current) = some .directory := by
  rw [origin]
  split
  · exact entry?_nil disk
  · exact hhere

/-- A log is found again where only files have changed. -/
theorem logsTo_iff {touched : Location → Prop} {log : Option String} (h : Rewrites disk d touched) :
    LogsTo d log l ↔ LogsTo disk log l := by
  simp only [LogsTo, logPath, h.current, h.place?_eq]

theorem here_of_keeps {touched : Location → Prop} (h : Keeps disk d touched)
    (hhere : disk.entry? disk.current = some .directory) : d.entry? d.current = some .directory := by
  rw [h.current]
  exact h.directories _ hhere

/-- A directory stays one. -/
theorem isDirectory_of_keeps {touched : Location → Prop} {path : String} (h : Keeps disk d touched)
    (hpath : disk.isDirectory path = true) : d.isDirectory path = true := by
  rw [isDirectory, lookup?] at hpath ⊢
  cases hplace : disk.place? path with
  | none =>
    rw [hplace] at hpath
    cases hpath
  | some loc =>
    have hd : d.place? path = some loc := by
      rw [place?, h.current]
      exact walk?_of_kept h.links h.directories hplace
    rw [hplace] at hpath
    rw [hd, Option.bind_some, h.directories loc (hasDirectory_iff.mp hpath)]
    rfl

/-- What a run needs to find: the directory that it runs in and its workspace, on a disk that is closed. -/
structure Ready (disk : Disk) (workspace : String) : Prop where
  closed : disk.Closed
  current : ∀ n ∈ disk.current, IsName n
  here : disk.entry? disk.current = some .directory
  workspace : disk.isDirectory workspace = true

theorem Ready.rewrites {touched : Location → Prop} {workspace : String} (h : Ready disk workspace)
    (hrewrites : Rewrites disk d touched) : Ready d workspace where
  closed := hrewrites.closed
  current := by
    rw [hrewrites.current]
    exact h.current
  here := here_of_keeps hrewrites.toKeeps h.here
  workspace := isDirectory_of_keeps hrewrites.toKeeps h.workspace

section Log

variable {log : Option String} (hd : disk.Closed) (hhere : disk.entry? disk.current = some .directory)
include hd hhere

/-- Adding to a log changes that file only. What is there stays at its front. -/
theorem appendLog?_rewrites {content : ByteArray} {file : String} (h : appendLog? disk content file = some d) :
    ∃ loc, disk.place? (logPath disk file) = some loc ∧ Rewrites disk d (· = loc) ∧
      ((∃ old, disk.entry? loc = some (.file old) ∧ d.entry? loc = some (.file (old ++ content))) ∨
        disk.entry? loc = none) := by
  rw [appendLog?] at h
  split at h
  case isTrue => cases h
  case isFalse =>
    obtain ⟨loc, hplace, hfree, hkeeps, hthere⟩ := writeFile?_keeps hd (entry?_origin hhere _) h
    refine ⟨loc, hplace, hkeeps.rewrites ?_, ?_⟩
    · rintro l rfl
      simp [hthere]
    · rw [content?, lookup?, hplace, Option.bind_some] at hthere
      cases hentry : disk.entry? loc with
      | none => exact .inr rfl
      | some e =>
        cases e with
        | file old =>
          rw [hentry] at hthere
          exact .inl ⟨old, rfl, hthere⟩
        | directory => exact absurd hentry hfree
        | link target =>
          -- a path is followed through its links
          have hlink := linkAt?_eq_some_iff.mpr hentry
          rw [← hkeeps.links, linkAt?, hthere] at hlink
          cases hlink

/-- Opening a log makes it if it is missing, and changes nothing else. -/
theorem openLog?_rewrites (h : openLog? disk log = some start) :
    Rewrites disk start (LogsTo disk log) ∧ ∀ l, disk.entry? l ≠ none → start.entry? l = disk.entry? l := by
  cases log with
  | none =>
    obtain rfl : disk = start := Option.some.inj h
    exact ⟨Rewrites.refl hd, fun _ _ => rfl⟩
  | some file =>
    have happend : appendLog? disk .empty file = some start := h
    obtain ⟨loc, hplace, hrewrites, hlog⟩ := appendLog?_rewrites hd hhere happend
    refine ⟨hrewrites.mono ?_, fun l hl => ?_⟩
    · rintro l rfl
      exact ⟨file, rfl, hplace⟩
    · by_cases heq : l = loc
      · subst heq
        obtain ⟨old, hold, hthere⟩ | hnone := hlog
        · rw [hthere, hold, ByteArray.append_empty]
        · exact absurd hnone hl
      · exact hrewrites.others l heq

theorem keepLog_rewrites (host : Host) (log : Option String) :
    Rewrites disk (keepLog host disk log) (LogsTo disk log) := by
  cases log with
  | none => exact Rewrites.refl hd
  | some file =>
    rw [keepLog]
    cases happend : appendLog? disk host.log file with
    | none => exact Rewrites.refl hd
    | some d =>
      obtain ⟨loc, hplace, hrewrites, -⟩ := appendLog?_rewrites hd hhere happend
      refine hrewrites.mono ?_
      rintro l rfl
      exact ⟨file, rfl, hplace⟩

/-- A log that has been opened is written to where it was opened. -/
theorem logged_rewrites (h : openLog? disk log = some start) (host : Host) :
    Rewrites disk (keepLog host start log) (LogsTo disk log) := by
  obtain ⟨hopened, -⟩ := openLog?_rewrites hd hhere h
  have hlogged := keepLog_rewrites hopened.closed (here_of_keeps hopened.toKeeps hhere) host log
  exact hopened.trans (hlogged.mono fun l => (logsTo_iff hopened).mp)

end Log

/-! ### Results -/

/-- The result of a run is what its change set does to the files that were read. -/
theorem exists_of_result? (h : result? host o env fresh disk = some (r, before)) :
    ∃ settings name start c files, Settings.load disk env o.config (.ok o.overrides) = .ok (settings, name) ∧
      openLog? disk settings.logFile = some start ∧ loadAll start o = .ok (c, files) ∧
        r = ((c.apply settings .calm fresh files).run settings.reader).1 ∧
          writeOutput? (keepLog host start settings.logFile) r o.output = some before := by
  obtain ⟨⟨settings, name⟩, hsettings, h⟩ := Option.bind_eq_some_iff.mp h
  obtain ⟨start, hopen, h⟩ := Option.bind_eq_some_iff.mp h
  obtain ⟨⟨c, files⟩, hload, h⟩ := Option.bind_eq_some_iff.mp h
  obtain ⟨after, houtput, h⟩ := Option.bind_eq_some_iff.mp h
  obtain ⟨rfl, rfl⟩ := Prod.mk.inj (Option.some.inj h)
  exact ⟨settings, name, start, c, files, toOption_eq_some_iff.mp hsettings, hopen, toOption_eq_some_iff.mp hload, rfl,
    houtput⟩

/-- Writing the result as JSON changes nothing but the file that it is written to. -/
theorem writeOutput?_rewrites (hd : disk.Closed) (hhere : disk.entry? disk.current = some .directory)
    (h : writeOutput? disk r o.output = some before) :
    Rewrites disk before fun l => ∃ file, o.output = some file ∧ disk.place? file = some l := by
  cases houtput : o.output with
  | none =>
    rw [houtput] at h
    obtain rfl : disk = before := Option.some.inj h
    exact Rewrites.refl hd
  | some file =>
    rw [houtput] at h
    obtain ⟨loc, hplace, -, hkeeps, hthere⟩ := writeFile?_keeps hd (entry?_origin hhere file) h
    refine (hkeeps.rewrites ?_).mono ?_
    · rintro l rfl
      simp [hthere]
    · rintro l rfl
      exact ⟨file, rfl, hplace⟩

/-- Before the files of a result are written, nothing has changed but the log and the file that the result is written
to as JSON. -/
theorem before_rewrites {log : Option String} (hd : start.Closed) (hhere : start.entry? start.current = some .directory)
    (h : writeOutput? (keepLog host start log) r o.output = some before) :
    Rewrites start before fun l =>
      LogsTo start log l ∨ ∃ file, o.output = some file ∧ start.place? file = some l := by
  have hlogged := keepLog_rewrites hd hhere host log
  have hwritten := writeOutput?_rewrites hlogged.closed (here_of_keeps hlogged.toKeeps hhere) h
  refine (hlogged.mono fun l => .inl).trans (hwritten.mono ?_)
  rintro l ⟨file, hfile, hl⟩
  exact .inr ⟨file, hfile, hlogged.place?_eq file ▸ hl⟩

/-- So every other place has what it had when the log was opened. -/
theorem entry_eq_of_before {log : Option String} {workspace : String} (h : Ready disk workspace)
    (hopen : openLog? disk log = some start) (hbefore : writeOutput? (keepLog host start log) r o.output = some before)
    (houtput : ∀ file, o.output = some file → disk.place? file ≠ some l) (hlog : ¬ LogsTo disk log l) :
    before.entry? l = start.entry? l := by
  obtain ⟨hopened, -⟩ := openLog?_rewrites h.closed h.here hopen
  refine (before_rewrites hopened.closed (here_of_keeps hopened.toKeeps h.here) hbefore).others l ?_
  rintro (hto | ⟨file, hgiven, hplace⟩)
  · exact hlog ((logsTo_iff hopened).mp hto)
  · exact houtput file hgiven (hopened.place?_eq file ▸ hplace)

/-- A run without a result changes nothing but its log. -/
theorem Idles.rewrites (hd : disk.Closed) (hhere : disk.entry? disk.current = some .directory)
    (h : Idles host o env disk d) : Rewrites disk d (LogsAt o env disk) := by
  cases h with
  | untouched => exact Rewrites.refl hd
  | opened hsettings hopen =>
    exact (openLog?_rewrites hd hhere hopen).1.mono fun l hl => ⟨_, _, hsettings, hl⟩
  | logged hsettings hopen =>
    exact (logged_rewrites hd hhere hopen host).mono fun l hl => ⟨_, _, hsettings, hl⟩

/-- However a run with a result ends, its files are all written as far as that goes, or none of them. -/
theorem finish_disk (host : Host) (o : ApplyOptions) (r : ApplyResult) (lines : List Printed) (before : Disk) :
    (finish host o r lines before).disk = before ∨
      o.write = true ∧ (finish host o r lines before).disk = (publish o.workspace r.modified before []).1 := by
  have htold {ps : List Printed} {d : Disk} {rest : Session} :
      (tell host o ps d rest).disk = rest.disk ∨ (tell host o ps d rest).disk = d := by
    rw [tell]
    split
    · exact .inl rfl
    · rw [Host.saying]
      split
      · exact .inl rfl
      · exact .inr rfl
  rw [finish]
  obtain hrest | hstopped := htold
  case inr => exact .inl hstopped
  case inl =>
    rw [hrest]
    split
    case isTrue hwrite =>
      generalize publish o.workspace r.modified before [] = published
      obtain ⟨after, skipped, _ | crash⟩ := published
      · obtain hended | hstopped := htold
        · exact .inr ⟨hwrite, hended⟩
        · exact .inr ⟨hwrite, hstopped⟩
      · exact .inr ⟨hwrite, rfl⟩
    case isFalse =>
      obtain hended | hstopped := htold
      · exact .inl hended
      · exact .inl hstopped

end CommandLine

end SourceChange
