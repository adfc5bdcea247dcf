import Mathlib.Data.List.Pairwise
import SourceChange.CommandLine.Apply
import SourceChange.Proofs.Disk.Writing

/-!
Writing the result of a run into a workspace.

A file of the result is left out if it lies outside the workspace, if it would be created over something that
is there, or if it is a directory that would be deleted. Every other one is carried out, unless writing breaks
off. What is left out is printed, but does not count as a failure.
-/

namespace SourceChange

namespace Disk

open SourceChange.Path

variable {d d' : Disk} {workspace : String} {m : ModifiedFile} {ms : List ModifiedFile} {loc : Location}

/-- Whether writing leaves a file of the result out. -/
def leavesOut (d : Disk) (workspace : String) (m : ModifiedFile) : Bool :=
  match d.resolveIn workspace m.path with
  | .error _ => true
  | .ok loc =>
    match m.action with
    | .create => d.isPresent (pathOf loc)
    | .delete => d.isDirectory (pathOf loc)
    | .modify => false

/-- What a file of the result asks for holds: its content stands at its place, or nothing does if it is to be
deleted. -/
def Shows (d : Disk) (loc : Location) (m : ModifiedFile) : Prop :=
  if m.action = .delete then d.isPresent (pathOf loc) = false
  else d.content? (pathOf loc) = some m.content.toUTF8

/-- Files that can be written one after the other: no link is in the way of one, and none of them lies at or above
the place of another, or where another has its temporary file or its backup. -/
structure Publishable (d : Disk) (workspace : String) (ms : List ModifiedFile) : Prop where
  closed : d.Closed
  current : ∀ n ∈ d.current, IsName n
  unlinked : ∀ m ∈ ms, ∀ loc, d.resolveIn workspace m.path = .ok loc → d.Unlinked loc
  apart : ms.Pairwise fun a b => ∀ la lb, d.resolveIn workspace a.path = .ok la →
    d.resolveIn workspace b.path = .ok lb → ¬ Touches la lb ∧ ¬ Touches lb la

namespace Keeps

variable {touched : Location → Prop} (h : Keeps d d' touched)
include h

theorem resolveIn_before {path : String} (hloc : d'.resolveIn workspace path = .ok loc) :
    d.resolveIn workspace path = .ok loc :=
  resolveIn_eq_ok_of_kept h.links h.current h.directories hloc

theorem resolveIn_after {path : String} (hcurrent : ∀ n ∈ d.current, IsName n) (hclear : d.Clear loc)
    (hloc : d.resolveIn workspace path = .ok loc) : d'.resolveIn workspace path = .ok loc :=
  resolveIn_eq_ok_of_clear h.links h.current hcurrent hclear hloc

end Keeps

namespace Publishable

theorem tail (h : d.Publishable workspace (m :: ms)) : d.Publishable workspace ms where
  closed := h.closed
  current := h.current
  unlinked := (List.forall_mem_cons.mp h.unlinked).2
  apart := (List.pairwise_cons.mp h.apart).2

theorem keeps {touched : Location → Prop} (h : d.Publishable workspace ms) (hkeeps : Keeps d d' touched) :
    d'.Publishable workspace ms where
  closed := hkeeps.closed
  current := by
    rw [hkeeps.current]
    exact h.current
  unlinked m hm loc hloc := hkeeps.unlinked (h.unlinked m hm loc (hkeeps.resolveIn_before hloc))
  apart := by
    refine h.apart.imp ?_
    intro a b hab la lb hla hlb
    exact hab la lb (hkeeps.resolveIn_before hla) (hkeeps.resolveIn_before hlb)

/-- On a disk without links it is enough to look at what there is. -/
theorem of_entries (hentries : ∀ x ∈ d.entries, ∀ q ∈ x.1.inits, q ≠ x.1 → d.hasDirectory q = true)
    (hlinks : ∀ x ∈ d.entries, d.linkAt? x.1 = none) (hcurrent : ∀ n ∈ d.current, IsName n)
    (hapart : ms.Pairwise fun a b => ∀ la ∈ (d.resolveIn workspace a.path).toOption,
      ∀ lb ∈ (d.resolveIn workspace b.path).toOption, ¬ Touches la lb ∧ ¬ Touches lb la) :
    d.Publishable workspace ms where
  closed := closed_of_entries hentries
  current := hcurrent
  unlinked m hm loc hloc :=
    have hnone := linkAt?_of_entries hlinks
    ⟨fun q hq => hnone q, hnone _, hnone _⟩
  apart := by
    refine hapart.imp ?_
    intro a b hab la lb hla hlb
    rw [hla, hlb] at hab
    exact hab la rfl lb rfl

end Publishable

theorem leavesOut_of_ok (h : d.resolveIn workspace m.path = .ok loc) :
    d.leavesOut workspace m = match m.action with
      | .create => d.isPresent (pathOf loc)
      | .delete => d.isDirectory (pathOf loc)
      | .modify => false := by
  rw [leavesOut, h]

theorem Shows.congr (h : d'.lookup? (pathOf loc) = d.lookup? (pathOf loc)) : d'.Shows loc m ↔ d.Shows loc m := by
  rw [Shows, Shows, isPresent, isPresent, content?, content?, h]

end Disk

namespace CommandLine

open Disk SourceChange.Path

variable {d d' : Disk} {workspace : String} {m : ModifiedFile} {ms : List ModifiedFile} {loc : Location}

theorem publishFile_skipped (hd : d.Closed) (hcurrent : ∀ n ∈ d.current, IsName n)
    (hunlinked : ∀ loc, d.resolveIn workspace m.path = .ok loc → d.Unlinked loc)
    (h : publishFile d workspace m = .skipped d') : d' = d ∧ d.leavesOut workspace m = true := by
  rw [publishFile] at h
  split at h
  case h_1 => cases h
  case h_2 fault _ hfault =>
    cases h
    rw [leavesOut, hfault]
    exact ⟨rfl, rfl⟩
  case h_3 loc hloc =>
    have hnames := isName_of_resolveIn hcurrent hloc
    have hclear := (hunlinked loc hloc).clear
    rw [leavesOut_of_ok hloc]
    dsimp only at h
    split at h
    case h_1 haction =>
      rw [haction]
      split at h
      case h_1 => cases h
      case h_2 _ after hdelete =>
        cases h
        obtain ⟨rfl, hdirectory⟩ := delete_pathOf_eq_false hd hnames hclear hdelete
        exact ⟨rfl, (isDirectory_pathOf hnames hclear hd).mpr hdirectory⟩
    case h_2 haction =>
      split at h
      case isTrue hthere =>
        cases h
        rw [Bool.and_eq_true, beq_iff_eq] at hthere
        rw [hthere.1]
        exact ⟨rfl, hthere.2⟩
      case isFalse =>
        split at h
        all_goals cases h

theorem publishFile_written (hd : d.Closed) (hcurrent : ∀ n ∈ d.current, IsName n)
    (hunlinked : ∀ loc, d.resolveIn workspace m.path = .ok loc → d.Unlinked loc)
    (h : publishFile d workspace m = .written d') :
    d.leavesOut workspace m = false ∧
      ∃ loc, d.resolveIn workspace m.path = .ok loc ∧ Keeps d d' (Touches loc) ∧ d'.Shows loc m := by
  rw [publishFile] at h
  split at h
  case h_1 => cases h
  case h_2 => cases h
  case h_3 loc hloc =>
    have hnames := isName_of_resolveIn hcurrent hloc
    have hclear := (hunlinked loc hloc).clear
    rw [leavesOut_of_ok hloc]
    dsimp only at h
    split at h
    case h_1 haction =>
      rw [haction]
      split at h
      case h_2 => cases h
      case h_1 _ after hdelete =>
        cases h
        obtain ⟨hkeeps, hgone, hfile⟩ := delete_pathOf hd hnames hclear hdelete
        refine ⟨?_, loc, hloc, hkeeps.mono ?_, ?_⟩
        · rw [← Bool.not_eq_true, isDirectory_pathOf hnames hclear hd]
          exact hfile
        · rintro l rfl
          exact .inl (List.prefix_refl _)
        · rw [Shows, if_pos haction, isPresent_pathOf hnames (hkeeps.clear hclear) hkeeps.closed, hgone]
          rfl
    case h_2 haction =>
      split at h
      case isTrue => cases h
      case isFalse hfree =>
        split at h
        case h_1 _ after hwrite =>
          cases h
          obtain ⟨hkeeps, hthere, -⟩ :=
            atomicWrite_done hd (ne_nil_of_atomicWrite hwrite) hnames (hunlinked loc hloc) hwrite
          refine ⟨?_, loc, hloc, hkeeps, ?_⟩
          · cases hm : m.action with
            | create => simpa [hm] using hfree
            | modify => rfl
            | delete => exact absurd hm haction
          · rw [Shows, if_neg haction]
            exact (content?_pathOf hnames (hkeeps.clear hclear) hkeeps.closed).mpr hthere
        all_goals cases h

/-! ### Writing all files -/

variable {host : Host} {o : ApplyOptions} {env : Environment} {fresh : String} {disk before : Disk} {r : ApplyResult}

/-- The result of a run, and the disk that it is to be written to. -/
def result? (host : Host) (o : ApplyOptions) (env : Environment) (fresh : String) (disk : Disk) :
    Option (ApplyResult × Disk) := do
  let (settings, _) ← (Settings.load disk env o.config (.ok o.overrides)).toOption
  let start ← openLog? disk settings.logFile
  let (c, files) ← (loadAll start o).toOption
  let r := (StateT.run (c.apply settings .calm fresh files) settings.reader).1
  return (r, ← writeOutput? (keepLog host start settings.logFile) r o.output)

/-- What a run makes of its disk that comes to no result: it may have opened its log, and have written into it. -/
inductive Idles (host : Host) (o : ApplyOptions) (env : Environment) (disk : Disk) : Disk → Prop where
  | untouched : Idles host o env disk disk
  | opened {settings : Settings} {name : Option String} {start : Disk}
      (hsettings : Settings.load disk env o.config (.ok o.overrides) = .ok (settings, name))
      (hopen : openLog? disk settings.logFile = some start) : Idles host o env disk start
  | logged {settings : Settings} {name : Option String} {start : Disk}
      (hsettings : Settings.load disk env o.config (.ok o.overrides) = .ok (settings, name))
      (hopen : openLog? disk settings.logFile = some start) :
      Idles host o env disk (keepLog host start settings.logFile)

/-- Work that, if it breaks off, ends the run with a failure. -/
def Fails {α : Type} (x : Except Ending α) : Prop := ∀ ending, x = .error ending → ending.status ≠ 0

section Fails

variable {α β : Type}

theorem fails_ok (a : α) : Fails (.ok a) := fun _ h => nomatch h

theorem fails_error {ending : Ending} (h : ending.status ≠ 0) : Fails (.error ending : Except Ending α) := by
  rintro _ ⟨rfl⟩
  exact h

theorem Fails.bind {x : Except Ending α} {f : α → Except Ending β} (hx : Fails x) (hf : ∀ a, Fails (f a)) :
    Fails (x >>= f) := by
  cases x with
  | error ending => exact fails_error (hx ending rfl)
  | ok a => exact hf a

theorem fails_readChangeSet (file : String) : Fails (readChangeSet disk file) := by
  rw [readChangeSet]
  split
  case h_1 => exact fails_error Nat.one_ne_zero
  case h_2 =>
    split
    case h_1 => exact fails_error Nat.one_ne_zero
    case h_2 =>
      split
      case h_1 c _ => exact fails_ok c
      case h_2 => exact fails_error Nat.one_ne_zero
      case h_3 => exact fails_error Nat.one_ne_zero

theorem fails_loadFile (path : String) : Fails (loadFile disk workspace path) := by
  rw [loadFile]
  split
  case isTrue => exact fails_error Nat.one_ne_zero
  case isFalse =>
    refine Fails.bind ?_ fun loc => ?_
    · cases disk.resolveIn workspace path with
      | error fault =>
        refine fails_error ?_
        cases fault <;> exact Nat.one_ne_zero
      | ok loc => exact fails_ok loc
    · dsimp only
      split
      case h_1 => exact fails_ok none
      case h_2 => exact fails_error Nat.one_ne_zero
      case h_3 =>
        split
        case h_1 text _ => exact fails_ok (some text)
        case h_2 => exact fails_error Nat.one_ne_zero

theorem fails_loadFiles (paths : List String) (files : Files) : Fails (loadFiles disk workspace paths files) := by
  induction paths generalizing files with
  | nil => exact fails_ok files
  | cons path paths ih =>
    rw [loadFiles]
    split
    case isTrue => exact ih files
    case isFalse =>
      refine (fails_loadFile path).bind fun text => ?_
      cases text with
      | none => exact ih files
      | some text => exact ih (files.set path text)

theorem fails_loadAll : Fails (loadAll disk o) := by
  rw [loadAll]
  refine (fails_readChangeSet o.changeSet).bind fun c => ?_
  exact (fails_loadFiles _ []).bind fun files => fails_ok (c, files)

end Fails

theorem refuseSettings_status (host : Host) (message : String) (disk : Disk) :
    (refuseSettings host message disk).ending.status ≠ 0 := by
  intro h
  have hsaid := Host.saying_of_status h
  rw [refuseSettings, hsaid] at h
  cases h

theorem refuseSettings_disk (host : Host) (message : String) (disk : Disk) :
    (refuseSettings host message disk).disk = disk := by
  rw [refuseSettings, Host.saying]
  split <;> rfl

/-- A run comes to its end with a result, or it breaks off before it changes anything but its log. -/
theorem runApply_cases (host : Host) (o : ApplyOptions) (env : Environment) (fresh : String) (disk : Disk) :
    ((runApply host o env fresh disk).ending.status ≠ 0 ∧ Idles host o env disk (runApply host o env fresh disk).disk) ∨
      ∃ r before lines, result? host o env fresh disk = some (r, before) ∧
        runApply host o env fresh disk = finish host o r lines before := by
  rw [runApply]
  split
  case h_1 => exact .inl ⟨refuseSettings_status host _ disk, (refuseSettings_disk host _ disk).symm ▸ .untouched⟩
  case h_2 settings _ hsettings =>
    cases hopen : openLog? disk settings.logFile with
    | none => exact .inl ⟨refuseSettings_status host _ disk, (refuseSettings_disk host _ disk).symm ▸ .untouched⟩
    | some start =>
      dsimp only
      rw [applyWith]
      cases hload : loadAll start o with
      | error ending => exact .inl ⟨fails_loadAll ending hload, .opened hsettings hopen⟩
      | ok loaded =>
        obtain ⟨c, files⟩ := loaded
        dsimp only
        cases hbefore : writeOutput? (keepLog host start settings.logFile)
            (StateT.run (c.apply settings .calm fresh files) settings.reader).1 o.output with
        | none => exact .inl ⟨Nat.one_ne_zero, .logged hsettings hopen⟩
        | some before =>
          refine .inr ⟨_, before, _, ?_, rfl⟩
          simp [result?, hsettings, hopen, hload, hbefore, Except.toOption]

/-- A run ends with success only if it comes to its end with a result. -/
theorem exists_result_of_status (h : (runApply host o env fresh disk).ending.status = 0) :
    ∃ r before lines, result? host o env fresh disk = some (r, before) ∧
      runApply host o env fresh disk = finish host o r lines before := by
  obtain ⟨hfailed, -⟩ | hfinished := runApply_cases host o env fresh disk
  · exact absurd h hfailed
  · exact hfinished

/-- Where a run ends with success after something was printed, it went on behind that. -/
theorem tell_of_status {ps : List Printed} {rest : Session} (h : (tell host o ps disk rest).ending.status = 0) :
    rest.ending.status = 0 ∧ (tell host o ps disk rest).disk = rest.disk ∧
      (o.asJson = false → (tell host o ps disk rest).printed = ps ++ rest.printed) := by
  rw [tell] at h ⊢
  split at h
  case isTrue hjson =>
    rw [if_pos hjson]
    exact ⟨h, rfl, fun hshown => Bool.noConfusion (hjson.symm.trans hshown)⟩
  case isFalse hshown =>
    have hsaid := Host.saying_of_status h
    rw [hsaid] at h
    rw [if_neg hshown, hsaid]
    exact ⟨h, rfl, fun _ => rfl⟩

/-- A run that writes ends with success only if its result is one and writing does not break off. -/
theorem publish_of_status {lines : List Printed} (hwrite : o.write = true)
    (h : (finish host o r lines before).ending.status = 0) :
    r.success = true ∧ ∃ skipped,
      publish o.workspace r.modified before [] = ((finish host o r lines before).disk, skipped, none) ∧
        (o.asJson = false →
          (finish host o r lines before).printed = lines ++ writtenLines r.modified skipped ++ [finalLine r]) := by
  rw [finish, if_pos hwrite] at h ⊢
  obtain ⟨hrest, hdisk, hprinted⟩ := tell_of_status h
  rw [hdisk]
  generalize hpublish : publish o.workspace r.modified before [] = published at hrest hprinted ⊢
  obtain ⟨after, skipped, _ | crash⟩ := published
  · obtain ⟨hended, hafter, hclosing⟩ := tell_of_status hrest
    refine ⟨?_, skipped, ?_, fun hshown => ?_⟩
    · by_contra hfailed
      rw [if_neg hfailed] at hended
      cases hended
    · rw [hafter]
    · rw [hprinted hshown, hclosing hshown, List.append_nil, List.append_assoc]
  · cases hrest

end CommandLine

end SourceChange
