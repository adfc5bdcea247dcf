import SourceChange.CommandLine.Run
import SourceChange.Proofs.Disk.Loading

/-!
Staying in the workspace.

What is written and deleted lies below the root of the workspace, and so do the temporary file and the backup of
a write. But only the place of the file itself is looked for behind links: where one stands in place of the
temporary file or the backup, writing goes through it. Without such links nothing outside the root is changed,
however a run ends.
-/

namespace SourceChange

namespace Disk

open SourceChange.Path

variable {d d' d'' : Disk} {base loc l : Location} {content : ByteArray} {backup : Bool}

/-- Only places at or below one place have changed. -/
def Confined (base : Location) (d d' : Disk) : Prop := ∀ l, ¬ base <+: l → d'.entry? l = d.entry? l

namespace Confined

protected theorem refl (base : Location) (d : Disk) : Confined base d d := fun _ _ => rfl

protected theorem trans (h : Confined base d d') (h' : Confined base d' d'') : Confined base d d'' :=
  fun l hl => (h' l hl).trans (h l hl)

end Confined

/-- Directories stay, so it does not matter that those above the root might be made. -/
theorem Keeps.confined {touched : Location → Prop} (h : Keeps d d' touched) (hd : d.Closed)
    (hbase : d.entry? base = some .directory) (hsub : ∀ l, touched l → base <+: l ∨ l <+: base) :
    Confined base d d' := by
  intro l hl
  by_cases ht : touched l
  · have habove : l <+: base := (hsub l ht).resolve_left hl
    have hne : l ≠ base := by
      rintro rfl
      exact hl (List.prefix_refl l)
    have hdirectory := hd base (by simp [hbase]) l habove hne
    rw [hdirectory, h.directories l hdirectory]
  · exact h.others l ht

/-- Moving changes nothing but what lies at or below the two places. -/
theorem entry?_moveTree_of_not_prefix {old new : Location} (hold : ¬ old <+: l) (hnew : ¬ new <+: l) :
    entry? (d.moveTree old new) l = d.entry? l := by
  by_cases hl : l = []
  · rw [hl, entry?_nil, entry?_nil]
  · have hne : l ≠ new := by
      rintro rfl
      exact hnew (List.prefix_refl l)
    have hmoved : ((d.entries.filter fun x => old.isPrefixOf x.1).map fun x =>
        (new ++ x.1.drop old.length, x.2)).lookup l = none := by
      rw [List.lookup_eq_none_iff]
      intro x hx
      obtain ⟨y, -, rfl⟩ := List.mem_map.mp hx
      refine bne_iff_ne.mpr fun heq => hnew ?_
      rw [heq]
      exact List.prefix_append new _
    have hother : (!old.isPrefixOf l && l != new) = true := by
      rw [Bool.and_eq_true, Bool.not_eq_true', bne_iff_ne, ← Bool.not_eq_true, List.isPrefixOf_iff_prefix]
      exact ⟨hold, hne⟩
    rw [entry?_eq_lookup hl, entry?_eq_lookup hl, moveTree]
    dsimp only
    rw [List.lookup_append, hmoved, Option.none_or, lookup_filter _ fun l => !old.isPrefixOf l && l != new,
      if_pos hother]

theorem rename?_confined {old new : Location} (hold : ∀ n ∈ old, IsName n) (hnew : ∀ n ∈ new, IsName n)
    (hclearOld : d.Clear old) (hclearNew : d.Clear new) (hbelowOld : base <+: old) (hbelowNew : base <+: new)
    (h : d.rename? (pathOf old) (pathOf new) = some d') : Confined base d d' := by
  obtain ⟨source, hsource, hfrom⟩ := Option.bind_eq_some_iff.mp h
  obtain ⟨target, htarget, hto⟩ := Option.bind_eq_some_iff.mp hfrom
  obtain ⟨moving, -, hsteps⟩ := Option.bind_eq_some_iff.mp hto
  obtain ⟨rfl, -⟩ := (ownPlace?_pathOf hold hclearOld).mp hsource
  obtain ⟨rfl, -⟩ := (ownPlace?_pathOf hnew hclearNew).mp htarget
  have hmoved : d' = d ∨ d' = d.moveTree source target := by
    split at hsteps
    case isTrue => exact .inl (Option.some.inj hsteps).symm
    case isFalse =>
      dsimp only at hsteps
      split at hsteps
      case isTrue => cases hsteps
      case isFalse =>
        split at hsteps
        case h_1 =>
          split at hsteps
          case isTrue => exact .inr (Option.some.inj hsteps).symm
          case isFalse => cases hsteps
        case h_2 => cases hsteps
        case h_3 => cases hsteps
        case h_4 => exact .inr (Option.some.inj hsteps).symm
  obtain rfl | rfl := hmoved
  · exact Confined.refl base d'
  · exact fun l hl => entry?_moveTree_of_not_prefix (fun hprefix => hl (hbelowOld.trans hprefix))
      fun hprefix => hl (hbelowNew.trans hprefix)

/-- The place of a copy of a file in the directory that stands where its backup would go. -/
def insideBackup (loc : Location) : Location := beside loc ".bak" ++ [loc.getLast?.getD ""]

theorem prefix_beside (hbelow : base <+: loc.dropLast) (suffix : String) : base <+: beside loc suffix :=
  hbelow.trans (List.prefix_append _ _)

theorem prefix_insideBackup (hbelow : base <+: loc.dropLast) : base <+: insideBackup loc :=
  (prefix_beside hbelow ".bak").trans (List.prefix_append _ _)

section Inside

variable (hne : loc ≠ []) (hloc : ∀ n ∈ loc, IsName n)
include hne hloc

theorem isName_insideBackup : ∀ n ∈ insideBackup loc, IsName n := by
  refine isName_of_mem_below (isName_backup hne hloc) ?_
  obtain ⟨dir, name, rfl, -⟩ := exists_beside hne
  simpa using hloc name (by simp)

theorem join_backup : join (pathOf (beside loc ".bak")) (lastName (pathOf loc)) = pathOf (insideBackup loc) := by
  have hlast : lastName (pathOf loc) = loc.getLast?.getD "" := by rw [lastName, steps_pathOf hloc]
  have hname : IsName (loc.getLast?.getD "") :=
    isName_insideBackup hne hloc _ (List.mem_append_right _ List.mem_cons_self)
  rw [hlast, join_pathOf (isName_backup hne hloc) hname, insideBackup]

end Inside

section Writing

variable (hd : d.Closed) (hbase : d.entry? base = some .directory) (hne : loc ≠ []) (hloc : ∀ n ∈ loc, IsName n)
  (hunlinked : d.Unlinked loc) (hbelow : base <+: loc.dropLast)
include hd hbase hne hloc hunlinked hbelow

/-- Clearing up after a failed step changes nothing outside. -/
theorem rollBack_confined (backup : Bool) : Confined base d (d.rollBack (pathOf loc) backup).1 := by
  have hnames := isName_temporary hne hloc
  have hclear := hunlinked.clear.beside hne hunlinked.temporary
  rw [rollBack, temporaryPath_pathOf hne hloc, backupPath_pathOf hne hloc]
  cases hcleared : (if d.isPresent (pathOf (beside loc ".tmp")) = true then
      d.unlink? (pathOf (beside loc ".tmp")) else some d) with
  | none => exact Confined.refl base d
  | some between =>
    have hkeeps : Keeps d between (· = beside loc ".tmp") := by
      split at hcleared
      case isTrue => exact (unlink?_pathOf hd hnames hclear hcleared).1
      case isFalse =>
        obtain rfl := Option.some.inj hcleared
        exact Keeps.refl hd
    have hconfined : Confined base d between :=
      hkeeps.confined hd hbase fun l hl => .inl (hl ▸ prefix_beside hbelow ".tmp")
    dsimp only
    split
    case isFalse => exact hconfined
    case isTrue =>
      cases hrename : between.rename? (pathOf (beside loc ".bak")) (pathOf loc) with
      | none => exact hconfined
      | some after =>
        have hunlinked := hkeeps.unlinked hunlinked
        refine hconfined.trans (rename?_confined (isName_backup hne hloc) hloc
          (hunlinked.clear.beside hne hunlinked.backup) hunlinked.clear (prefix_beside hbelow ".bak")
          (hbelow.trans (List.dropLast_prefix loc)) hrename)

theorem dropBackup_confined : Confined base d (d.dropBackup (pathOf loc) backup).1 := by
  rw [dropBackup, backupPath_pathOf hne hloc]
  split
  case isFalse => exact Confined.refl base d
  case isTrue =>
    split
    case h_1 after hunlink =>
      have hclear := hunlinked.clear.beside hne hunlinked.backup
      refine (unlink?_pathOf hd (isName_backup hne hloc) hclear hunlink).1.confined hd hbase fun l hl => ?_
      exact .inl (hl ▸ prefix_beside hbelow ".bak")
    case h_2 => exact rollBack_confined hd hbase hne hloc hunlinked hbelow backup

theorem replaceFile_confined : Confined base d (d.replaceFile (pathOf loc) content backup).1 := by
  have hnames := isName_temporary hne hloc
  have hclear := hunlinked.clear.beside hne hunlinked.temporary
  rw [replaceFile, temporaryPath_pathOf hne hloc]
  split
  case h_1 => exact rollBack_confined hd hbase hne hloc hunlinked hbelow backup
  case h_2 written hwrite =>
    obtain ⟨hwritten, hfile⟩ := writeFile?_pathOf hd hnames hclear hwrite
    have hconfined : Confined base d written :=
      hwritten.confined hd hbase fun l hl => .inl (hl ▸ prefix_beside hbelow ".tmp")
    have hbase := hwritten.directories base hbase
    have hunlinked := hwritten.unlinked hunlinked
    split
    case h_1 =>
      exact hconfined.trans (rollBack_confined hwritten.closed hbase hne hloc hunlinked hbelow backup)
    case h_2 moved hmove =>
      obtain ⟨hmoved, -, -⟩ := rename?_pathOf hwritten.closed hnames hloc (hwritten.clear hclear)
        hunlinked.clear (beside_ne hne (by decide)) hfile hmove
      have hmovedConfined : Confined base written moved := by
        refine hmoved.confined hwritten.closed hbase ?_
        rintro l (rfl | rfl)
        · exact .inl (prefix_beside hbelow ".tmp")
        · exact .inl (hbelow.trans (List.dropLast_prefix l))
      exact (hconfined.trans hmovedConfined).trans (dropBackup_confined hmoved.closed
        (hmoved.directories base hbase) hne hloc (hmoved.unlinked hunlinked) hbelow)

omit hbase in
/-- The old file is copied to its backup, or into the directory that stands there. -/
theorem copy?_confined (hinside : d.linkAt? (insideBackup loc) = none)
    (h : d.copy? (pathOf loc) (pathOf (beside loc ".bak")) = some d') :
    ∃ target, base <+: target ∧ Keeps d d' (· = target) := by
  have hclear := hunlinked.clear.beside hne hunlinked.backup
  have hnames := isName_backup hne hloc
  obtain ⟨copied, -, hwrite⟩ := exists_of_copy? h
  split at hwrite
  case isTrue =>
    rw [join_backup hne hloc] at hwrite
    exact ⟨_, prefix_insideBackup hbelow,
      (writeFile?_pathOf hd (isName_insideBackup hne hloc) (hclear.below hinside) hwrite).1⟩
  case isFalse => exact ⟨_, prefix_beside hbelow ".bak", (writeFile?_pathOf hd hnames hclear hwrite).1⟩

/-- However a write ends, it changes nothing outside. -/
theorem atomicWrite_confined (hinside : d.linkAt? (insideBackup loc) = none) :
    Confined base d (d.atomicWrite (pathOf loc) content true).1 := by
  have hsteps : ¬ (steps (pathOf loc) == []) = true := by
    rw [steps_pathOf hloc]
    simpa using hne
  rw [atomicWrite, if_neg hsteps, tidy_pathOf hloc, backupPath_pathOf hne hloc]
  cases hmake : d.makeDirectories (Path.directory (pathOf loc)) with
  | mk made flag =>
    have hkeeps := makeDirectories_pathOf hd hne hloc hunlinked.clear hmake
    have hconfined : Confined base d made := by
      refine hkeeps.confined hd hbase fun l hl => ?_
      exact (List.prefix_or_prefix_of_prefix hl hbelow).symm
    have hbase := hkeeps.directories base hbase
    have hunlinked := hkeeps.unlinked hunlinked
    cases flag with
    | false => exact hconfined.trans (rollBack_confined hkeeps.closed hbase hne hloc hunlinked hbelow false)
    | true =>
      dsimp only
      refine hconfined.trans ?_
      split
      case isFalse => exact replaceFile_confined hkeeps.closed hbase hne hloc hunlinked hbelow
      case isTrue =>
        split
        case h_1 => exact rollBack_confined hkeeps.closed hbase hne hloc hunlinked hbelow true
        case h_2 copied hcopy =>
          obtain ⟨target, htarget, hcopied⟩ := copy?_confined hkeeps.closed hne hloc hunlinked hbelow
            ((hkeeps.links _).trans hinside) hcopy
          have hcopiedConfined : Confined base made copied :=
            hcopied.confined hkeeps.closed hbase fun l hl => .inl (hl ▸ htarget)
          exact hcopiedConfined.trans (replaceFile_confined hcopied.closed (hcopied.directories base hbase)
            hne hloc (hcopied.unlinked hunlinked) hbelow)

end Writing

/-- Writing a file opens nothing that is a link: not its temporary file, not its backup, and not a file of its
name in a directory that stands where the backup would go. Where a link on the way leads back to itself, the way
behind it is taken as it is written, and then no link may stand on it either. -/
structure Guarded (d : Disk) (workspace path : String) (loc : Location) : Prop where
  straight : d.resolution (d.resolve workspace) (steps path) = .circular loc → d.Clear loc
  temporary : d.linkAt? (beside loc ".tmp") = none
  backup : d.linkAt? (beside loc ".bak") = none
  inside : d.linkAt? (insideBackup loc) = none

theorem Closed.clear (hd : d.Closed) (h : d.entry? loc = some .directory) : d.Clear loc := by
  have hstanding := hd.standing h
  intro q hq
  by_cases heq : q = loc
  · rw [heq]
    exact hstanding.unlinked
  · exact linkAt?_of_directory (hstanding.above q hq heq)

/-- Files of a result whose places lie below a directory, where no link stands on the way to one, at its
temporary file or at its backup. Only a file that is left out may be meant to take the place of the directory. -/
structure Enclosed (d : Disk) (workspace : String) (base : Location) (ms : List ModifiedFile) : Prop where
  closed : d.Closed
  current : ∀ n ∈ d.current, IsName n
  directory : d.entry? base = some .directory
  below : ∀ m ∈ ms, ∀ loc, d.resolveIn workspace m.path = .ok loc → base <+: loc
  strictly : ∀ m ∈ ms, ∀ loc, d.resolveIn workspace m.path = .ok loc → m.action = .modify → loc ≠ base
  unlinked : ∀ m ∈ ms, ∀ loc, d.resolveIn workspace m.path = .ok loc → d.Unlinked loc
  inside : ∀ m ∈ ms, ∀ loc, d.resolveIn workspace m.path = .ok loc → d.linkAt? (insideBackup loc) = none

namespace Enclosed

variable {workspace : String} {m : ModifiedFile} {ms : List ModifiedFile}

theorem tail (h : d.Enclosed workspace base (m :: ms)) : d.Enclosed workspace base ms where
  closed := h.closed
  current := h.current
  directory := h.directory
  below := (List.forall_mem_cons.mp h.below).2
  strictly := (List.forall_mem_cons.mp h.strictly).2
  unlinked := (List.forall_mem_cons.mp h.unlinked).2
  inside := (List.forall_mem_cons.mp h.inside).2

theorem keeps {touched : Location → Prop} (h : d.Enclosed workspace base ms) (hkeeps : Keeps d d' touched) :
    d'.Enclosed workspace base ms where
  closed := hkeeps.closed
  current := by
    rw [hkeeps.current]
    exact h.current
  directory := hkeeps.directories base h.directory
  below m hm loc hloc := h.below m hm loc (hkeeps.resolveIn_before hloc)
  strictly m hm loc hloc := h.strictly m hm loc (hkeeps.resolveIn_before hloc)
  unlinked m hm loc hloc := hkeeps.unlinked (h.unlinked m hm loc (hkeeps.resolveIn_before hloc))
  inside m hm loc hloc := (hkeeps.links _).trans (h.inside m hm loc (hkeeps.resolveIn_before hloc))

end Enclosed

theorem prefix_dropLast_of_ne (hbelow : base <+: loc) (hne : loc ≠ base) : base <+: loc.dropLast := by
  obtain rfl | ⟨dir, name, rfl⟩ := List.eq_nil_or_concat' loc
  · exact absurd (List.prefix_nil.mp hbelow).symm hne
  · rw [List.dropLast_concat]
    exact (List.prefix_concat_iff.mp hbelow).resolve_left hne.symm

end Disk

namespace CommandLine

open Disk SourceChange.Path

variable {d : Disk} {base loc : Location} {workspace : String} {m : ModifiedFile} {ms : List ModifiedFile}

/-- The disk that writing a file leaves behind. -/
def Publication.disk : Publication → Disk
  | written disk => disk
  | skipped disk => disk
  | broken disk _ => disk

/-- What stands in place of the root is neither deleted nor replaced. -/
theorem publishFile_root (hd : d.Closed) (hloc : d.resolveIn workspace m.path = .ok loc)
    (hnames : ∀ n ∈ loc, IsName n) (hclear : d.Clear loc) (hdirectory : d.entry? loc = some .directory)
    (haction : m.action ≠ .modify) : (publishFile d workspace m).disk = d := by
  have hpresent : d.isPresent (pathOf loc) = true := by
    rw [isPresent_pathOf hnames hclear hd, hdirectory]
    rfl
  have hisDirectory := (isDirectory_pathOf hnames hclear hd).mpr hdirectory
  rw [publishFile, hloc]
  dsimp only
  cases hm : m.action with
  | create =>
    dsimp only
    rw [hpresent]
    rfl
  | modify => exact absurd hm haction
  | delete =>
    dsimp only
    rw [delete, hpresent, hisDirectory]
    rfl

theorem publishFile_confined (hp : d.Enclosed workspace base (m :: ms)) :
    Confined base d (publishFile d workspace m).disk := by
  have hmem : m ∈ m :: ms := List.mem_cons_self
  cases hloc : d.resolveIn workspace m.path with
  | error fault =>
    rw [publishFile, hloc]
    cases fault <;> exact Confined.refl base d
  | ok loc =>
    have hnames := isName_of_resolveIn hp.current hloc
    have hunlinked := hp.unlinked m hmem loc hloc
    by_cases hroot : loc = base
    · have haction : m.action ≠ .modify := fun haction => hp.strictly m hmem loc hloc haction hroot
      rw [publishFile_root hp.closed hloc hnames hunlinked.clear (hroot ▸ hp.directory) haction]
      exact Confined.refl base d
    · have hbelow := prefix_dropLast_of_ne (hp.below m hmem loc hloc) hroot
      have hne : loc ≠ [] := by
        rintro rfl
        exact hroot (List.prefix_nil.mp hbelow).symm
      rw [publishFile, hloc]
      dsimp only
      split
      case h_1 =>
        cases hdelete : d.delete (pathOf loc) with
        | mk after gone =>
          cases gone with
          | true =>
            refine (delete_pathOf hp.closed hnames hunlinked.clear hdelete).1.confined hp.closed hp.directory ?_
            rintro l rfl
            exact .inl (hp.below m hmem l hloc)
          | false =>
            rw [(delete_pathOf_eq_false hp.closed hnames hunlinked.clear hdelete).1]
            exact Confined.refl base d
      case h_2 =>
        split
        case isTrue => exact Confined.refl base d
        case isFalse =>
          have hwrite : Confined base d (d.atomicWrite (pathOf loc) m.content.toUTF8 true).1 :=
            atomicWrite_confined hp.closed hp.directory hne hnames hunlinked hbelow (hp.inside m hmem loc hloc)
          revert hwrite
          cases d.atomicWrite (pathOf loc) m.content.toUTF8 true with
          | mk after ending => cases ending <;> exact id

/-- However writing a result ends, it changes nothing outside. -/
theorem publish_confined (hp : d.Enclosed workspace base ms) (skipped : List String) :
    Confined base d (publish workspace ms d skipped).1 := by
  induction ms generalizing d skipped with
  | nil => exact Confined.refl base d
  | cons m ms ih =>
    have hfile := publishFile_confined hp
    have hunlinked := (List.forall_mem_cons.mp hp.unlinked).1
    rw [publish]
    cases hpublish : publishFile d workspace m with
    | written after =>
      rw [hpublish] at hfile
      obtain ⟨-, loc, -, hkeeps, -⟩ := publishFile_written hp.closed hp.current hunlinked hpublish
      exact hfile.trans (ih (hp.tail.keeps hkeeps) skipped)
    | skipped after =>
      obtain ⟨rfl, -⟩ := publishFile_skipped hp.closed hp.current hunlinked hpublish
      exact ih hp.tail _
    | broken after crash =>
      rw [hpublish] at hfile
      exact hfile

/-! ### Runs -/

variable {disk : Disk} {args : List String} {o : ApplyOptions} {env : Environment} {fresh : String}

/-- Only the command `apply` is asked to apply something. -/
theorem exists_parseApply? (h : parse? disk args = some (.apply o)) :
    ∃ rest, parseApply? disk rest = some (.apply o) := by
  unfold parse? at h
  split at h
  case h_1 => cases h
  case h_2 arg rest =>
    split at h
    case isTrue => cases h
    case isFalse =>
      split at h
      case h_1 => exact ⟨rest, h⟩
      case h_2 =>
        obtain ⟨d, -, h⟩ := Option.bind_eq_some_iff.mp h
        split at h
        case isTrue => cases h
        case isFalse =>
          split at h
          case h_1 =>
            obtain ⟨file, -, h⟩ := Option.bind_eq_some_iff.mp h
            cases h
          case h_2 => cases h
      case h_3 =>
        obtain ⟨d, -, h⟩ := Option.bind_eq_some_iff.mp h
        split at h
        case isTrue => cases h
        case isFalse =>
          split at h
          case isTrue => cases h
          case isFalse =>
            obtain ⟨files, -, h⟩ := Option.bind_eq_some_iff.mp h
            cases h
      case h_4 => cases h

/-- A workspace is a directory that is there. -/
theorem isDirectory_of_parse? (h : parse? disk args = some (.apply o)) : disk.isDirectory o.workspace = true := by
  obtain ⟨rest, h⟩ := exists_parseApply? h
  obtain ⟨d, -, h⟩ := Option.bind_eq_some_iff.mp h
  split at h
  case isTrue => cases h
  case isFalse =>
    split at h
    case h_2 => cases h
    case h_1 =>
      obtain ⟨file, -, h⟩ := Option.bind_eq_some_iff.mp h
      obtain ⟨workspace, hworkspace, h⟩ := Option.bind_eq_some_iff.mp h
      obtain ⟨output, -, h⟩ := Option.bind_eq_some_iff.mp h
      obtain ⟨overrides, -, h⟩ := Option.bind_eq_some_iff.mp h
      obtain rfl := Command.apply.inj (Option.some.inj h)
      rw [existingDirectory?] at hworkspace
      split at hworkspace
      case isTrue hdirectory =>
        obtain rfl := Option.some.inj hworkspace
        exact (Bool.and_eq_true_iff.mp hdirectory).2
      case isFalse => cases hworkspace

/-- The root of a workspace that is there. -/
theorem exists_root (h : disk.isDirectory o.workspace = true) :
    disk.resolution (origin o.workspace disk.current) (steps o.workspace) = .reached (disk.resolve o.workspace) ∧
      disk.entry? (disk.resolve o.workspace) = some .directory := by
  rw [isDirectory, lookup?] at h
  cases hplace : disk.place? o.workspace with
  | none =>
    rw [hplace] at h
    cases h
  | some base =>
    rw [hplace] at h
    have hreached := resolution_of_place? hplace
    rw [resolve, hreached]
    exact ⟨rfl, hasDirectory_iff.mp h⟩

theorem prefix_of_resolveIn (hworkspace : disk.isDirectory o.workspace = true) {path : String}
    (hloc : disk.resolveIn o.workspace path = .ok loc) : disk.resolve o.workspace <+: loc := by
  obtain ⟨-, -, base, hbase, -, hbelow⟩ := resolveIn_eq_ok_iff.mp hloc
  obtain ⟨hroot, -⟩ := settle_eq_ok_iff.mp hbase
  rw [(exists_root hworkspace).1] at hroot
  obtain rfl : disk.resolve o.workspace = base := hroot
  exact hbelow

/-- A place in a workspace is found behind all links, unless one of them leads back to itself. -/
theorem unlinked_of_guarded (hd : disk.Closed) (hworkspace : disk.isDirectory o.workspace = true) {path : String}
    (hloc : disk.resolveIn o.workspace path = .ok loc) (h : disk.Guarded o.workspace path loc) :
    disk.Unlinked loc := by
  refine ⟨?_, h.temporary, h.backup⟩
  obtain ⟨hreached, hdirectory⟩ := exists_root hworkspace
  obtain ⟨-, -, base, hbase, hplace, -⟩ := resolveIn_eq_ok_iff.mp hloc
  obtain ⟨hroot, -⟩ := settle_eq_ok_iff.mp hbase
  rw [hreached] at hroot
  obtain rfl : disk.resolve o.workspace = base := hroot
  cases hresolution : disk.resolution (disk.resolve o.workspace) (steps path) with
  | reached found =>
    rw [hresolution] at hplace
    obtain rfl := Except.ok.inj hplace
    exact clear_of_resolution (hd.clear hdirectory) hresolution
  | circular found =>
    rw [hresolution] at hplace
    obtain ⟨rfl, -⟩ := settle_eq_ok_iff.mp hplace
    exact h.straight hresolution

/-- Without a log, a run without a result changes nothing. -/
theorem Idles.eq (hlog : ∀ settings name, Settings.load disk env o.config (.ok o.overrides) = .ok (settings, name) →
    settings.logFile = none) {host : Host} {after : Disk} (h : Idles host o env disk after) : after = disk := by
  cases h with
  | untouched => rfl
  | opened hsettings hopen =>
    rw [hlog _ _ hsettings] at hopen
    exact (Option.some.inj hopen).symm
  | logged hsettings hopen =>
    rw [hlog _ _ hsettings] at hopen ⊢
    exact (Option.some.inj hopen).symm

/-- A run without a log changes nothing outside its workspace, however it ends, as long as it writes through no
link. -/
theorem run_confined {host : Host} (hparse : parse? disk args = some (.apply o)) (houtput : o.output = none)
    (hlog : ∀ settings name, Settings.load disk env o.config (.ok o.overrides) = .ok (settings, name) →
      settings.logFile = none)
    (hd : disk.Closed) (hcurrent : ∀ n ∈ disk.current, IsName n)
    (hguarded : ∀ r before, result? host o env fresh disk = some (r, before) → ∀ m ∈ r.modified,
      ∀ loc, disk.resolveIn o.workspace m.path = .ok loc → disk.Guarded o.workspace m.path loc) :
    Confined (disk.resolve o.workspace) disk (run args env fresh disk host).disk := by
  have hworkspace := isDirectory_of_parse? hparse
  have hdirectory := (exists_root hworkspace).2
  rw [run, hparse]
  dsimp only
  obtain ⟨-, hidles⟩ | ⟨r, before, lines, hresult, hrun⟩ := runApply_cases host o env fresh disk
  · rw [hidles.eq hlog]
    exact Confined.refl _ disk
  · obtain ⟨settings, name, start, c, files, hsettings, hopen, hload, hr, hbefore⟩ := exists_of_result? hresult
    rw [hlog _ _ hsettings] at hopen hbefore
    obtain rfl : disk = start := Option.some.inj hopen
    rw [houtput] at hbefore
    obtain rfl : disk = before := Option.some.inj hbefore
    rw [hrun]
    obtain hsame | ⟨-, hpublished⟩ := finish_disk host o r lines disk
    · rw [hsame]
      exact Confined.refl _ disk
    · rw [hpublished]
      have hunlinked : ∀ m ∈ r.modified, ∀ loc, disk.resolveIn o.workspace m.path = .ok loc →
          disk.Unlinked loc := fun m hm loc hloc =>
        unlinked_of_guarded hd hworkspace hloc (hguarded r disk hresult m hm loc hloc)
      refine publish_confined ⟨hd, hcurrent, hdirectory, ?_, ?_, hunlinked, ?_⟩ []
      · exact fun m _ loc hloc => prefix_of_resolveIn hworkspace hloc
      · -- what is modified was read as a file
        rintro m hm loc hloc haction rfl
        obtain ⟨text, htext⟩ := ChangeSet.exists_text_of_modified (hr ▸ hm) haction
        obtain ⟨-, -, hread⟩ := loadAll_eq_ok hload
        obtain ⟨-, bytes, s, hfile, -⟩ := loadFile_eq_some (hread m.path text htext) hd hcurrent hloc
          (hunlinked m hm _ hloc).clear
        rw [hdirectory] at hfile
        cases hfile
      · exact fun m hm loc hloc => (hguarded r disk hresult m hm loc hloc).inside

/-- A text that is reached by a link in a workspace, and another one outside of it. -/
def notes : Disk :=
  ⟨[(["c.json"], .file ("\x7b\"files\":[\x7b\"path\":\"in/a.txt\",\"changes\":" ++
        "[\x7b\"type\":\"Append\",\"content\":\"two\"\x7d]\x7d]\x7d").toUTF8),
    (["out"], .directory), (["out", "b.txt"], .file "three\n".toUTF8),
    (["ws"], .directory), (["ws", "in"], .link "text"),
    (["ws", "text"], .directory), (["ws", "text", "a.txt"], .file "one\n".toUTF8)], []⟩

/-- Arguments that ask for the text to be written. -/
def noteArguments : List String := ["apply", "c.json", "--workspace", "ws", "--write", "--no-advice"]

/-- The options that these arguments give. -/
def writingNotes : ApplyOptions :=
  ⟨"c.json", "ws", true, none, false, none, { Layer.silent with extractionAdvice := some false }⟩

/-- The run changes the text behind the link, and not the one outside. -/
theorem notes_confined :
    parse? notes noteArguments = some (.apply writingNotes) ∧
      writingNotes.output = none ∧
      (∀ settings name, Settings.load notes [] none (.ok writingNotes.overrides) = .ok (settings, name) →
        settings.logFile = none) ∧
      notes.Closed ∧ (∀ n ∈ notes.current, IsName n) ∧
      (∀ r before, result? .plain writingNotes [] "" notes = some (r, before) → ∀ m ∈ r.modified,
        ∀ loc, notes.resolveIn "ws" m.path = .ok loc → notes.Guarded "ws" m.path loc) ∧
      let after := (run noteArguments [] "" notes).disk
      after.content? "/ws/text/a.txt" = some "one\ntwo".toUTF8 ∧
        after.entry? ["out", "b.txt"] = notes.entry? ["out", "b.txt"] := by
  have hparse : parse? notes noteArguments = some (.apply writingNotes) := rfl
  have hclosed : notes.Closed := closed_of_entries (by decide +kernel)
  have hcurrent : ∀ n ∈ notes.current, IsName n := by decide
  have hsettings : ∀ x ∈ (Settings.load notes [] none (.ok writingNotes.overrides)).toOption,
      x.1.logFile = none := by
    decide +kernel
  have hlog : ∀ settings name, Settings.load notes [] none (.ok writingNotes.overrides) = .ok (settings, name) →
      settings.logFile = none :=
    fun settings name h => hsettings (settings, name) (toOption_eq_some_iff.mpr h)
  have hresult : ∀ x ∈ result? .plain writingNotes [] "" notes, ∀ m ∈ x.1.modified,
      ∀ loc ∈ (notes.resolveIn "ws" m.path).toOption,
        notes.resolution (notes.resolve "ws") (steps m.path) ≠ .circular loc ∧
          notes.linkAt? (beside loc ".tmp") = none ∧ notes.linkAt? (beside loc ".bak") = none ∧
            notes.linkAt? (insideBackup loc) = none := by
    decide +kernel
  have hguarded : ∀ r before, result? .plain writingNotes [] "" notes = some (r, before) → ∀ m ∈ r.modified,
      ∀ loc, notes.resolveIn "ws" m.path = .ok loc → notes.Guarded "ws" m.path loc := by
    intro r before h m hm loc hloc
    obtain ⟨hstraight, htemporary, hbackup, hinside⟩ :=
      hresult (r, before) h m hm loc (by rw [hloc]; rfl)
    exact ⟨fun hcircular => absurd hcircular hstraight, htemporary, hbackup, hinside⟩
  refine ⟨hparse, rfl, hlog, hclosed, hcurrent, hguarded, by decide +kernel, ?_⟩
  exact run_confined hparse rfl hlog hclosed hcurrent hguarded ["out", "b.txt"] (by decide +kernel)

/-- The same texts, and a link that leads out of the workspace where the temporary file goes. -/
def linkedNotes : Disk :=
  { notes with entries := (["ws", "text", "a.txt.tmp"], .link "../../out/b.txt") :: notes.entries }

example : (run noteArguments [] "" linkedNotes).disk.content? "/out/b.txt" = some "one\ntwo".toUTF8 := by
  decide +kernel

end CommandLine

end SourceChange
