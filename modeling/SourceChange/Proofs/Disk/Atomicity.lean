import SourceChange.Proofs.Disk.Confinement

/-!
Atomic writes that fail.

However an atomic write ends, the file holds what it held before or its new content. Nothing else has changed
but what the write uses besides: the temporary file, the backup, and a copy of the file in a directory that
stands in place of the backup.
-/

namespace SourceChange.Disk

open SourceChange.Path

variable {d d' d'' : Disk} {loc l : Location} {content : ByteArray} {contents : ByteArray → Prop} {backup : Bool}

/-- What an atomic write of a file uses besides the place of the file. -/
def Scratch (loc l : Location) : Prop := l = beside loc ".tmp" ∨ l = beside loc ".bak" ∨ l = insideBackup loc

theorem insideBackup_ne (hne : loc ≠ []) (suffix : String) : insideBackup loc ≠ beside loc suffix := by
  intro heq
  have hlength := congrArg List.length heq
  rw [insideBackup, List.length_append, length_beside hne, length_beside hne] at hlength
  simp at hlength

theorem not_scratch (hne : loc ≠ []) : ¬ Scratch loc loc := by
  rintro (htemporary | hbackup | hinside)
  · exact beside_ne hne (by decide) htemporary.symm
  · exact beside_ne hne (by decide) hbackup.symm
  · have hlength := congrArg List.length hinside
    rw [insideBackup, List.length_append, length_beside hne] at hlength
    simp at hlength

/-- A file can be written where it is: the directories above it are there, it is no directory itself, and
nothing that the write uses is a link. -/
structure Replaceable (d : Disk) (loc : Location) : Prop extends Unlinked d loc where
  inside : d.linkAt? (insideBackup loc) = none
  above : ∀ q, q <+: loc → q ≠ loc → d.entry? q = some .directory
  free : d.entry? loc ≠ some .directory

namespace Replaceable

theorem ne_nil (h : d.Replaceable loc) : loc ≠ [] := by
  rintro rfl
  exact h.free (entry?_nil d)

theorem rewrites {touched : Location → Prop} (h : d.Replaceable loc) (hrewrites : Rewrites d d' touched) :
    d'.Replaceable loc where
  toUnlinked := hrewrites.unlinked h.toUnlinked
  inside := (hrewrites.links _).trans h.inside
  above q hq hne := hrewrites.directories q (h.above q hq hne)
  free hl := h.free (hrewrites.noneMade loc hl)

theorem exists_file (h : d.Replaceable loc) (hthere : d.entry? loc ≠ none) :
    ∃ bytes, d.entry? loc = some (.file bytes) := by
  cases hentry : d.entry? loc with
  | none => exact absurd hentry hthere
  | some e =>
    cases e with
    | file bytes => exact ⟨bytes, rfl⟩
    | directory => exact absurd hentry h.free
    | link target =>
      have hlink := h.clear loc (List.prefix_refl loc)
      rw [linkAt?_eq_some_iff.mpr hentry] at hlink
      cases hlink

theorem above_beside (h : d.Replaceable loc) (suffix : String) :
    ∀ q, q <+: beside loc suffix → q ≠ beside loc suffix → d.entry? q = some .directory := by
  obtain ⟨dir, name, rfl, hbeside⟩ := exists_beside h.ne_nil
  rw [hbeside]
  intro q hq hne
  have hdir := (List.prefix_concat_iff.mp hq).resolve_left hne
  refine h.above q (hdir.trans (List.prefix_append dir [name])) ?_
  rintro rfl
  have hshort := hdir.length_le
  rw [List.length_append] at hshort
  exact absurd hshort (by simp)

end Replaceable

/-- What a write of a file may leave: the file as it was or with one of the given contents, and other things
only where the write uses them. -/
structure Leaves (d d' : Disk) (loc : Location) (contents : ByteArray → Prop) : Prop where
  rewrites : Rewrites d d' fun l => l = loc ∨ Scratch loc l
  content : d'.entry? loc = d.entry? loc ∨ ∃ bytes, contents bytes ∧ d'.entry? loc = some (.file bytes)

namespace Leaves

protected theorem refl (hd : d.Closed) : Leaves d d loc contents := ⟨Rewrites.refl hd, .inl rfl⟩

protected theorem trans (h : Leaves d d' loc contents) (h' : Leaves d' d'' loc contents) :
    Leaves d d'' loc contents where
  rewrites := h.rewrites.trans h'.rewrites
  content := by
    obtain hsame | hnew := h'.content
    · rw [hsame]
      exact h.content
    · exact .inr hnew

/-- A step that leaves the file itself alone. -/
theorem of_scratch {touched : Location → Prop} (hne : loc ≠ []) (h : Rewrites d d' touched)
    (hsub : ∀ l, touched l → Scratch loc l) : Leaves d d' loc contents where
  rewrites := h.mono fun l hl => .inr (hsub l hl)
  content := .inl (h.others loc fun hloc => not_scratch hne (hsub loc hloc))

end Leaves

/-- A directory cannot be moved over a file. -/
theorem rename?_directory (hd : d.Closed) {old new : Location} (hold : ∀ n ∈ old, IsName n)
    (hnew : ∀ n ∈ new, IsName n) (hclearOld : d.Clear old) (hclearNew : d.Clear new)
    (hdirectory : d.entry? old = some .directory) (hfile : d.entry? new = some (.file content)) :
    d.rename? (pathOf old) (pathOf new) = none := by
  have hsource := (ownPlace?_pathOf hold hclearOld).mpr ⟨rfl, hd old (by simp [hdirectory])⟩
  have htarget := (ownPlace?_pathOf hnew hclearNew).mpr ⟨rfl, hd new (by simp [hfile])⟩
  have hne : ¬ (old == new) = true := by
    intro heq
    rw [beq_iff_eq.mp heq, hfile] at hdirectory
    cases hdirectory
  rw [rename?, hsource, htarget]
  simp only [Option.bind_eq_bind, Option.bind_some, hdirectory, hfile, if_neg hne]
  split <;> rfl

/-- There is a file, and if there is a backup, it has one of the given contents. -/
structure Saved (d : Disk) (loc : Location) (contents : ByteArray → Prop) : Prop where
  file : ∃ bytes, d.entry? loc = some (.file bytes)
  backup : ∀ bytes, d.entry? (beside loc ".bak") = some (.file bytes) → contents bytes

/-- What happens to the temporary file is nothing to what is saved. -/
theorem Saved.rewrites (h : d.Saved loc contents) (hne : loc ≠ []) (hrewrites : Rewrites d d' (· = beside loc ".tmp")) :
    d'.Saved loc contents where
  file := by
    rw [hrewrites.others loc (beside_ne hne (by decide)).symm]
    exact h.file
  backup bytes hentry := by
    rw [hrewrites.others _ (temporary_ne_backup loc).symm] at hentry
    exact h.backup bytes hentry

section Steps

variable (hd : d.Closed) (hloc : ∀ n ∈ loc, IsName n) (hp : d.Replaceable loc)
include hd hloc hp

/-- The temporary file is removed, if there is one. -/
theorem cleared_rewrites (h : (if d.isPresent (pathOf (beside loc ".tmp")) = true then
      d.unlink? (pathOf (beside loc ".tmp")) else some d) = some d') : Rewrites d d' (· = beside loc ".tmp") := by
  have hne := hp.ne_nil
  split at h
  case isTrue =>
    obtain ⟨hkeeps, hgone, -⟩ :=
      unlink?_pathOf hd (isName_temporary hne hloc) (hp.clear.beside hne hp.temporary) h
    refine hkeeps.rewrites ?_
    rintro l rfl
    simp [hgone]
  case isFalse =>
    obtain rfl := Option.some.inj h
    exact Rewrites.refl hd

/-- What is there as a backup is moved over the file. -/
theorem rename?_backup_leaves (hsaved : d.Saved loc contents)
    (hpresent : d.isPresent (pathOf (beside loc ".bak")) = true) :
    Leaves d ((d.rename? (pathOf (beside loc ".bak")) (pathOf loc)).getD d) loc contents := by
  have hne := hp.ne_nil
  have hnames := isName_backup hne hloc
  have hclear := hp.clear.beside hne hp.backup
  rw [isPresent_pathOf hnames hclear hd] at hpresent
  cases hentry : d.entry? (beside loc ".bak") with
  | none => simp [hentry] at hpresent
  | some e =>
    cases e with
    | link target =>
      have hlink := hp.backup
      rw [linkAt?_eq_some_iff.mpr hentry] at hlink
      cases hlink
    | directory =>
      obtain ⟨bytes, hfile⟩ := hsaved.file
      rw [rename?_directory hd hnames hloc hclear hp.clear hentry hfile]
      exact Leaves.refl hd
    | file saved =>
      cases hrename : d.rename? (pathOf (beside loc ".bak")) (pathOf loc) with
      | none => exact Leaves.refl hd
      | some after =>
        obtain ⟨hkeeps, hthere, hgone⟩ := rename?_pathOf hd hnames hloc hclear hp.clear
          (beside_ne hne (by decide)) hentry hrename
        refine ⟨(hkeeps.rewrites ?_).mono ?_, .inr ⟨saved, hsaved.backup saved hentry, hthere⟩⟩
        · rintro l (rfl | rfl)
          · simp [hgone]
          · simp [hthere]
        · rintro l (rfl | rfl)
          · exact .inr (.inr (.inl rfl))
          · exact .inl rfl

/-- After a failed step the backup, if there is one, takes the place of the file. -/
theorem rollBack_leaves (hsaved : backup = true → d.Saved loc contents) :
    Leaves d (d.rollBack (pathOf loc) backup).1 loc contents := by
  have hne := hp.ne_nil
  rw [rollBack, temporaryPath_pathOf hne hloc, backupPath_pathOf hne hloc]
  cases hcleared : (if d.isPresent (pathOf (beside loc ".tmp")) = true then
      d.unlink? (pathOf (beside loc ".tmp")) else some d) with
  | none => exact Leaves.refl hd
  | some between =>
    have hrewrites := cleared_rewrites hd hloc hp hcleared
    have hleaves : Leaves d between loc contents := Leaves.of_scratch hne hrewrites fun l hl => .inl hl
    dsimp only
    split
    case isFalse => exact hleaves
    case isTrue hbackup =>
      obtain ⟨hbackup, hpresent⟩ := Bool.and_eq_true_iff.mp hbackup
      exact hleaves.trans (rename?_backup_leaves hrewrites.closed hloc (hp.rewrites hrewrites)
        ((hsaved hbackup).rewrites hne hrewrites) hpresent)

theorem dropBackup_leaves (hsaved : backup = true → d.Saved loc contents) :
    Leaves d (d.dropBackup (pathOf loc) backup).1 loc contents := by
  have hne := hp.ne_nil
  rw [dropBackup, backupPath_pathOf hne hloc]
  split
  case isFalse => exact Leaves.refl hd
  case isTrue =>
    split
    case h_1 after hunlink =>
      obtain ⟨hkeeps, hgone, -⟩ := unlink?_pathOf hd (isName_backup hne hloc)
        (hp.clear.beside hne hp.backup) hunlink
      refine Leaves.of_scratch hne (hkeeps.rewrites ?_) fun l hl => .inr (.inl hl)
      rintro l rfl
      simp [hgone]
    case h_2 => exact rollBack_leaves hd hloc hp hsaved

theorem replaceFile_leaves (hcontent : contents content) (hsaved : backup = true → d.Saved loc contents) :
    Leaves d (d.replaceFile (pathOf loc) content backup).1 loc contents := by
  have hne := hp.ne_nil
  have hnames := isName_temporary hne hloc
  have hclear := hp.clear.beside hne hp.temporary
  have hother : beside loc ".tmp" ≠ loc := beside_ne hne (by decide)
  have hapart := temporary_ne_backup loc
  rw [replaceFile, temporaryPath_pathOf hne hloc]
  split
  case h_1 => exact rollBack_leaves hd hloc hp hsaved
  case h_2 written hwrite =>
    obtain ⟨hkeeps, hfile⟩ := writeFile?_pathOf hd hnames hclear hwrite
    have hwritten : Rewrites d written (· = beside loc ".tmp") := by
      refine hkeeps.rewrites ?_
      rintro l rfl
      simp [hfile]
    have hp := hp.rewrites hwritten
    have hsavedWritten (hbackup : backup = true) : written.Saved loc contents :=
      (hsaved hbackup).rewrites hne hwritten
    refine (Leaves.of_scratch hne hwritten fun l hl => .inl hl).trans ?_
    split
    case h_1 => exact rollBack_leaves hwritten.closed hloc hp hsavedWritten
    case h_2 moved hmove =>
      obtain ⟨hkeeps, hthere, hgone⟩ := rename?_pathOf hwritten.closed hnames hloc (hwritten.clear hclear)
        hp.clear hother hfile hmove
      have hmoved : Rewrites written moved fun l => l = beside loc ".tmp" ∨ l = loc := by
        refine hkeeps.rewrites ?_
        rintro l (rfl | rfl)
        · simp [hgone]
        · simp [hthere]
      have hsavedMoved (hbackup : backup = true) : moved.Saved loc contents := by
        refine ⟨⟨content, hthere⟩, fun bytes h => (hsavedWritten hbackup).backup bytes ?_⟩
        rwa [hmoved.others _ (not_or.mpr ⟨hapart.symm, beside_ne hne (by decide)⟩)] at h
      have hleaves : Leaves written moved loc contents := by
        refine ⟨hmoved.mono ?_, .inr ⟨content, hcontent, hthere⟩⟩
        rintro l (rfl | rfl)
        · exact .inr (.inl rfl)
        · exact .inl rfl
      exact hleaves.trans (dropBackup_leaves hmoved.closed hloc (hp.rewrites hmoved) hsavedMoved)

/-- The directories above the file are there already. -/
theorem makeDirectories_rewrites {made : Bool}
    (h : d.makeDirectories (Path.directory (pathOf loc)) = (d', made)) : Rewrites d d' fun _ => False := by
  have hkeeps := makeDirectories_pathOf hd hp.ne_nil hloc hp.clear h
  have hsame : ∀ l, d'.entry? l = d.entry? l := by
    intro l
    by_cases habove : l <+: loc.dropLast
    · have hne : l ≠ loc := by
        rintro rfl
        exact not_prefix_dropLast hp.ne_nil le_rfl habove
      have hdirectory := hp.above l (habove.trans (List.dropLast_prefix loc)) hne
      rw [hdirectory, hkeeps.directories l hdirectory]
    · exact hkeeps.others l habove
  exact ⟨⟨hkeeps.closed, hkeeps.current, hkeeps.links, hkeeps.directories, fun l _ => hsame l⟩,
    fun l hl => (hsame l).symm.trans hl⟩

/-- The old file is saved in its backup, unless a directory stands there. -/
theorem copy?_leaves (contents : ByteArray → Prop) (hfile : d.entry? loc = some (.file content))
    (hcontent : contents content) (h : d.copy? (pathOf loc) (pathOf (beside loc ".bak")) = some d') :
    Leaves d d' loc contents ∧ d'.Saved loc contents := by
  have hne := hp.ne_nil
  have hnames := isName_backup hne hloc
  have hclear := hp.clear.beside hne hp.backup
  obtain ⟨copied, hcopied, hwrite⟩ := exists_of_copy? h
  obtain rfl : content = copied := by
    have hthere := (content?_pathOf hloc hp.clear hd).mp hcopied
    rw [hfile] at hthere
    exact Entry.file.inj (Option.some.inj hthere)
  split at hwrite
  case isTrue hdirectory =>
    rw [join_backup hne hloc] at hwrite
    obtain ⟨hkeeps, hthere⟩ :=
      writeFile?_pathOf hd (isName_insideBackup hne hloc) (hclear.below hp.inside) hwrite
    have hrewrites : Rewrites d d' (· = insideBackup loc) := by
      refine hkeeps.rewrites ?_
      rintro l rfl
      simp [hthere]
    refine ⟨Leaves.of_scratch hne hrewrites fun l hl => .inr (.inr hl), ⟨content, ?_⟩, fun bytes hbytes => ?_⟩
    · rw [hrewrites.others loc fun hinside => not_scratch hne (.inr (.inr hinside)), hfile]
    · rw [hrewrites.others _ (insideBackup_ne hne ".bak").symm,
        (isDirectory_pathOf hnames hclear hd).mp hdirectory] at hbytes
      cases hbytes
  case isFalse hother =>
    obtain ⟨hkeeps, hthere⟩ := writeFile?_pathOf hd hnames hclear hwrite
    have hrewrites : Rewrites d d' (· = beside loc ".bak") := by
      refine hkeeps.rewrites ?_
      rintro l rfl
      simp [hthere]
    refine ⟨Leaves.of_scratch hne hrewrites fun l hl => .inr (.inl hl), ⟨content, ?_⟩, fun bytes hbytes => ?_⟩
    · rw [hrewrites.others loc (beside_ne hne (by decide)).symm, hfile]
    · rw [hthere] at hbytes
      exact Entry.file.inj (Option.some.inj hbytes) ▸ hcontent

/-- Only a directory in place of the backup keeps the old file from being saved. -/
theorem entry?_of_copy?_eq_none (hfile : d.entry? loc = some (.file content))
    (h : d.copy? (pathOf loc) (pathOf (beside loc ".bak")) = none) :
    d.entry? (beside loc ".bak") = some .directory := by
  have hne := hp.ne_nil
  have hnames := isName_backup hne hloc
  have hclear := hp.clear.beside hne hp.backup
  by_contra hother
  have hcontent := (content?_pathOf hloc hp.clear hd).mpr hfile
  have hsource := (place?_pathOf hloc hp.clear).mpr ⟨rfl, hp.above⟩
  have htarget := (place?_pathOf hnames hclear).mpr ⟨rfl, hp.above_beside ".bak"⟩
  have happart : ¬ (some loc == some (beside loc ".bak")) = true := by
    simpa using (beside_ne hne (by decide)).symm
  have hdirectory : ¬ d.isDirectory (pathOf (beside loc ".bak")) = true := by
    rwa [isDirectory_pathOf hnames hclear hd]
  have hfree : ¬ d.hasDirectory (beside loc ".bak") = true := by rwa [hasDirectory_iff]
  rw [copy?] at h
  simp only [if_neg hdirectory, hcontent, hsource, htarget, Option.bind_eq_bind, Option.bind_some, writeFile?,
    if_neg happart, if_neg hfree] at h
  cases h

/-- However an atomic write ends, the file holds what it held before or its new content. -/
theorem atomicWrite_leaves :
    Leaves d (d.atomicWrite (pathOf loc) content true).1 loc
      fun bytes => bytes = content ∨ d.entry? loc = some (.file bytes) := by
  have hne := hp.ne_nil
  have hsteps : ¬ (steps (pathOf loc) == []) = true := by
    rw [steps_pathOf hloc]
    simpa using hne
  rw [atomicWrite, if_neg hsteps, tidy_pathOf hloc, backupPath_pathOf hne hloc]
  cases hmake : d.makeDirectories (Path.directory (pathOf loc)) with
  | mk made flag =>
    have hmade := makeDirectories_rewrites hd hloc hp hmake
    have hsame (l : Location) : made.entry? l = d.entry? l := hmade.others l id
    have hp := hp.rewrites hmade
    refine (Leaves.of_scratch hne hmade fun l hl => hl.elim).trans ?_
    cases flag with
    | false => exact rollBack_leaves hmade.closed hloc hp fun hbackup => absurd hbackup Bool.false_ne_true
    | true =>
      dsimp only
      split
      case isFalse =>
        exact replaceFile_leaves hmade.closed hloc hp (.inl rfl) fun hbackup =>
          absurd hbackup Bool.false_ne_true
      case isTrue hpresent =>
        rw [Bool.true_and, isPresent_pathOf hloc hp.clear hmade.closed] at hpresent
        obtain ⟨old, hold⟩ := hp.exists_file (Option.isSome_iff_ne_none.mp hpresent)
        split
        case h_1 hcopy =>
          refine rollBack_leaves hmade.closed hloc hp fun _ => ⟨⟨old, hold⟩, fun bytes hbytes => ?_⟩
          rw [entry?_of_copy?_eq_none hmade.closed hloc hp hold hcopy] at hbytes
          cases hbytes
        case h_2 copied hcopy =>
          obtain ⟨hleaves, hsaved⟩ := copy?_leaves hmade.closed hloc hp
            (fun bytes => bytes = content ∨ d.entry? loc = some (.file bytes)) hold
            (.inr ((hsame loc).symm.trans hold)) hcopy
          exact hleaves.trans (replaceFile_leaves hleaves.rewrites.closed hloc (hp.rewrites hleaves.rewrites)
            (.inl rfl) fun _ => hsaved)

end Steps

end SourceChange.Disk
