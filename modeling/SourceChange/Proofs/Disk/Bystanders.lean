import SourceChange.Proofs.Disk.Stages

/-!
What a write leaves alone.

When a write is done, its path holds the content and no other place has changed, except for the two that it uses
besides: what stood at the place of the temporary file is gone, and so is what stood at that of the backup, if there
was a file to be backed up. So a write replaces one file only where nothing stands at these places.
-/

namespace SourceChange.Disk

open SourceChange.Path

variable {d d' made : Disk} {p : String} {dir l : Location} {content : ByteArray} {backup : Bool}

/-- A path holds a content, and nothing else has changed but directories on the way to it that were missing; they
are there on the disk `made`. -/
structure Replaces (d made d' : Disk) (p : String) (dir : Location) (content : ByteArray) : Prop where
  content : d'.content? p = some content
  others : ∀ l, l ≠ spot p dir → d'.entry? l = d.entry? l ∨
    d.entry? l = none ∧ d'.entry? l = some .directory ∧ made.OnWay p l

/-- Nothing stands at the places that a write uses besides that of the file. -/
def Unused (made : Disk) (p : String) (dir : Location) (backup : Bool) : Prop :=
  made.entry? (spare p dir ".tmp") = none ∧ (made.backsUp p backup = true → made.entry? (spare p dir ".bak") = none)

theorem dropBackup_ne_done_of_directory (h : d.Site p dir) (hp : steps p ≠ [])
    (hdirectory : d.entry? (spare p dir ".bak") = some .directory) : (d.dropBackup p true).2 ≠ .done := by
  have hpresent : d.isPresent (backupPath p) = true := isPresent_of_directory h hp isSuffix_backup hdirectory
  have hunlink : d.unlink? (backupPath p) = none := unlink?_of_directory h hp isSuffix_backup hdirectory
  rw [dropBackup]
  simp only [hpresent, hunlink, Bool.and_self, if_true]
  exact rollBack_ne_done _ _ _

/-- No file is written where a directory stands in place of the temporary file. -/
theorem replaceFile_ne_done_of_directory (h : d.Site p dir) (hp : steps p ≠ [])
    (hdirectory : d.entry? (spare p dir ".tmp") = some .directory) : (d.replaceFile p content backup).2 ≠ .done := by
  have hwrite : d.writeFile? (temporaryPath p) content = none :=
    writeFile?_of_directory h hp isSuffix_temporary hdirectory content
  rw [replaceFile, hwrite]
  exact rollBack_ne_done _ _ _

/-- A directory in place of the backup cannot be removed in the end. -/
theorem replaceFile_ne_done_of_backup (h : d.Site p dir) (hp : steps p ≠ []) (hadmits : d.Admits p dir)
    (htemporary : IsPlain (d.entry? (spare p dir ".tmp")))
    (hdirectory : d.entry? (spare p dir ".bak") = some .directory) : (d.replaceFile p content true).2 ≠ .done := by
  obtain ⟨written, hwrite, hstage, hsite, hadmitted⟩ := (Stage.start h.closed p dir).writes h hp htemporary content
  obtain ⟨moved, hmove, hmoved, hsite'⟩ :=
    hstage.moves hsite (.inl rfl) hp hstage.temporary (hstage.own.symm ▸ hadmits.free)
  have hmove : written.rename? (temporaryPath p) p = some moved := hmove
  rw [replaceFile, hwrite]
  dsimp only
  rw [hmove]
  refine dropBackup_ne_done_of_directory (hsite' (hadmitted hadmits)) hp ?_
  rw [hmoved.backup, hdirectory]
  simp

theorem entry?_of_unlink? {q : String} (h : d.unlink? q = some d') (l : Location) :
    d'.entry? l = d.entry? l ∨ d'.entry? l = none := by
  obtain ⟨loc, -, h⟩ := Option.bind_eq_some_iff.mp h
  split at h
  case h_1 => cases h
  case h_2 => cases h
  case h_3 e hother hthere =>
    obtain rfl := Option.some.inj h
    have hloc : loc ≠ [] := by
      rintro rfl
      exact hother (Option.some.inj hthere).symm
    rw [entry?_remove hloc]
    split
    case isTrue => exact .inr rfl
    case isFalse => exact .inl rfl

/-- A temporary file that has been moved is gone, and it has not taken the place of a directory. -/
theorem entry?_of_moved (h : d.Site p dir) (hp : steps p ≠ [])
    (hfile : d.entry? (spare p dir ".tmp") ≠ some .directory) (hmove : d.rename? (temporaryPath p) p = some d') :
    d'.entry? (spare p dir ".tmp") = none ∧ d.entry? (spot p dir) ≠ some .directory := by
  obtain ⟨source, hsource, hfrom⟩ := Option.bind_eq_some_iff.mp hmove
  obtain ⟨target, -, hto⟩ := Option.bind_eq_some_iff.mp hfrom
  obtain ⟨e, he, -⟩ := Option.bind_eq_some_iff.mp hto
  have hspare := h.ownPlace?_spare hp isSuffix_temporary
  obtain rfl := Option.some.inj (hsource.symm.trans hspare)
  have hother : e ≠ .directory := by
    rintro rfl
    exact hfile he
  have hfree : d.entry? (spot p dir) ≠ some .directory := by
    intro hdirectory
    have hnone : d.rename? (temporaryPath p) p = none :=
      rename?_spare_eq_none h hp isSuffix_temporary he hother hdirectory
    rw [hnone] at hmove
    cases hmove
  obtain ⟨moved, hrename, -, -, hentries⟩ := rename?_spare h hp isSuffix_temporary he hother hfree
  have hrename : d.rename? (temporaryPath p) p = some moved := hrename
  obtain rfl := Option.some.inj (hmove.symm.trans hrename)
  refine ⟨?_, hfree⟩
  rw [hentries, if_neg (spare_ne_spot isSuffix_temporary), if_pos rfl]

/-- Where nothing is when the backup is dropped, nothing is afterwards. -/
theorem entry?_of_dropBackup (hdone : d.dropBackup p backup = (d', .done)) (hnone : d.entry? l = none) :
    d'.entry? l = none := by
  rw [dropBackup] at hdone
  split at hdone
  case isTrue =>
    split at hdone
    case h_1 dropped hunlink =>
      rw [← (Prod.mk.inj hdone).1]
      obtain hsame | hgone := entry?_of_unlink? hunlink l
      · rw [hsame, hnone]
      · exact hgone
    case h_2 => exact absurd (congrArg Prod.snd hdone) (rollBack_ne_done _ _ _)
  case isFalse => rw [← (Prod.mk.inj hdone).1, hnone]

/-- Whatever stood there, nothing is left at the place of the temporary file, and the file has not taken the place
of a directory. -/
theorem replaceFile_done_temporary (hd : d.Closed) (hcurrent : d.entry? d.current = some .directory)
    (h : d.Site p dir) (hp : steps p ≠ []) (hdone : d.replaceFile p content backup = (d', .done)) :
    d'.entry? (spare p dir ".tmp") = none ∧ d.entry? (spot p dir) ≠ some .directory := by
  rw [replaceFile] at hdone
  split at hdone
  case h_1 => exact absurd (congrArg Prod.snd hdone) (rollBack_ne_done _ _ _)
  case h_2 written hwrite =>
    obtain ⟨hclosed, hcurrent', hswaps⟩ := writeFile?_swaps hd hcurrent hwrite
    have hfile : written.entry? (spare p dir ".tmp") ≠ some .directory := by
      intro hdirectory
      have hold : d.entry? (spare p dir ".tmp") = some .directory := by
        obtain hsame | ⟨-, hplain⟩ := hswaps (spare p dir ".tmp")
        · rw [← hsame, hdirectory]
        · exact absurd hdirectory hplain.ne_directory
      have hnone : d.writeFile? (temporaryPath p) content = none :=
        writeFile?_of_directory h hp isSuffix_temporary hold content
      rw [hnone] at hwrite
      cases hwrite
    split at hdone
    case h_1 => exact absurd (congrArg Prod.snd hdone) (rollBack_ne_done _ _ _)
    case h_2 moved hmove =>
      obtain ⟨hgone, hfree⟩ := entry?_of_moved (h.of_swaps hclosed hcurrent' hswaps) hp hfile hmove
      exact ⟨entry?_of_dropBackup hdone hgone, fun hdirectory => hfree (entry?_of_swaps (hswaps _) hdirectory)⟩

/-- The path of a file that is written leads to it, unless the way to its directory went through a link in its
place. -/
theorem Stage.content?_eq {temporary saved : Option Entry}
    (h : Stage made p dir (some (.file content)) temporary saved d) (hsite : d.Site p dir) (hp : steps p ≠ []) :
    d.content? p = some content := by
  have hplace := hsite.place?_eq hp (by rw [linkAt?, h.own])
  rw [content?, lookup?, hplace, Option.bind_some, h.own]

section Done

variable (hd : d.Closed) (hcurrent : d.entry? d.current = some .directory) (h : d.Site p dir) (hp : steps p ≠ [])
  (hdone : d.overwriteUnder {} p content backup = (d', .done))
include hd hcurrent h hp hdone

omit hd hcurrent h hp in
/-- What a write that is done has gone through. -/
theorem cases_of_done :
    d.backsUp p backup = false ∧ d.replaceFile p content false = (d', .done) ∨
      ∃ old copied, d.backsUp p backup = true ∧ d.content? p = some old ∧
        d.writeFile? (if d.isDirectory (backupPath p) then join (backupPath p) (lastName p) else backupPath p) old =
          some copied ∧ copied.replaceFile p content true = (d', .done) := by
  rw [overwriteUnder] at hdone
  split at hdone
  case isFalse hsaves =>
    rw [replaceFileUnder_none] at hdone
    exact .inl ⟨by simpa using hsaves, hdone⟩
  case isTrue hsaves =>
    split at hdone
    case h_1 =>
      rw [rollBackUnder_none] at hdone
      exact absurd (congrArg Prod.snd hdone) (rollBack_ne_done _ _ _)
    case h_2 copied hcopy =>
      obtain ⟨-, hfalse⟩ | ⟨old, bytes, hcontent, hwrite, hbytes, -⟩ := copyUnder_cases hcopy
      · cases hfalse
      · obtain rfl := hbytes rfl
        rw [replaceFileUnder_none] at hdone
        exact .inr ⟨bytes, copied, hsaves, hcontent, hwrite, hdone⟩

theorem temporary_of_done :
    d'.entry? (spare p dir ".tmp") = none ∧ d.entry? (spot p dir) ≠ some .directory := by
  obtain ⟨-, hreplace⟩ | ⟨old, copied, -, -, hwrite, hreplace⟩ := cases_of_done hdone
  · exact replaceFile_done_temporary hd hcurrent h hp hreplace
  · obtain ⟨hclosed, hcurrent', hswaps⟩ := writeFile?_swaps hd hcurrent hwrite
    obtain ⟨hgone, hfree⟩ := replaceFile_done_temporary hclosed
      (hcurrent' ▸ entry?_of_swaps (hswaps _) hcurrent) (h.of_swaps hclosed hcurrent' hswaps) hp hreplace
    exact ⟨hgone, fun hdirectory => hfree (entry?_of_swaps (hswaps _) hdirectory)⟩

/-- A write that is done changes what stands at three places only. -/
theorem stage_of_done (htemporary : d.linkAt? (spare p dir ".tmp") = none)
    (hbackup : d.backsUp p backup = true → d.linkAt? (spare p dir ".bak") = none) :
    IsPlain (d.entry? (spare p dir ".tmp")) ∧
      (d.backsUp p backup = true → IsPlain (d.entry? (spare p dir ".bak"))) ∧
      Stage d p dir (some (.file content)) none
        (if d.backsUp p backup = true then none else d.entry? (spare p dir ".bak")) d' := by
  obtain ⟨hsaves, hreplace⟩ | ⟨old, copied, hsaves, hcontent, hwrite, hreplace⟩ := cases_of_done hdone
  · have hplain : IsPlain (d.entry? (spare p dir ".tmp")) := by
      refine isPlain_iff.mpr ⟨htemporary, fun hdirectory => ?_⟩
      exact replaceFile_ne_done_of_directory h hp hdirectory (congrArg Prod.snd hreplace)
    refine ⟨hplain, fun hbacks => by simp [hsaves] at hbacks, ?_⟩
    obtain ⟨after, ⟨hdone, hstage⟩ | ⟨hdone, -⟩⟩ := (Stage.start h.closed p dir).replaceFileUnder
      (f := {}) h hp content false rfl rfl hplain (fun hfalse => by cases hfalse)
    · rw [replaceFileUnder_none, hreplace] at hdone
      rw [if_neg (by simp [hsaves]), (Prod.mk.inj hdone).1]
      simpa using hstage
    · rw [replaceFileUnder_none, hreplace] at hdone
      cases (Prod.mk.inj hdone).2
  · obtain ⟨hclosed, hcurrent', hswaps⟩ := writeFile?_swaps hd hcurrent hwrite
    have hsite := h.of_swaps hclosed hcurrent' hswaps
    have hadmits := h.admits_of_content? hp hcontent
    have hadmitted := hadmits.of_swaps hcurrent' hswaps
    have hcopied : IsPlain (copied.entry? (spare p dir ".tmp")) := by
      refine isPlain_iff.mpr ⟨(linkAt?_of_swaps (hswaps _)).trans htemporary, fun hdirectory => ?_⟩
      exact replaceFile_ne_done_of_directory hsite hp hdirectory (congrArg Prod.snd hreplace)
    have hplain : IsPlain (d.entry? (spare p dir ".tmp")) :=
      isPlain_iff.mpr ⟨htemporary, fun hdirectory => hcopied.ne_directory (entry?_of_swaps (hswaps _) hdirectory)⟩
    have hspare : IsPlain (d.entry? (spare p dir ".bak")) := by
      refine isPlain_iff.mpr ⟨hbackup hsaves, fun hdirectory => ?_⟩
      exact replaceFile_ne_done_of_backup hsite hp hadmitted hcopied (entry?_of_swaps (hswaps _) hdirectory)
        (congrArg Prod.snd hreplace)
    refine ⟨hplain, fun _ => hspare, ?_⟩
    rw [if_neg (h.not_isDirectory_backup hp hspare)] at hwrite
    obtain ⟨saved, hsave, hstage, hsite, hadmitted⟩ := (Stage.start h.closed p dir).saves h hp hspare old
    obtain rfl := Option.some.inj (hwrite.symm.trans hsave)
    obtain ⟨after, ⟨hdone, hstage⟩ | ⟨hdone, -⟩⟩ := hstage.replaceFileUnder (f := {}) hsite hp content true
      rfl rfl hplain (fun _ => ⟨⟨old, rfl⟩, hadmitted hadmits⟩)
    · rw [replaceFileUnder_none, hreplace] at hdone
      rw [if_pos hsaves, (Prod.mk.inj hdone).1]
      simpa using hstage
    · rw [replaceFileUnder_none, hreplace] at hdone
      cases (Prod.mk.inj hdone).2

variable {start : Disk} (hgrows : Grows p start d)
include hgrows

/-- Where nothing stood at the places that a write uses besides that of the file, it changes nothing but that. -/
theorem replaces_of_unused (hadmits : d.Admits p dir) (hunused : d.Unused p dir backup) :
    Replaces start d d' p dir content := by
  obtain ⟨htmp, hbak⟩ := hunused
  obtain ⟨-, -, hstage⟩ := stage_of_done hd hcurrent h hp hdone (by rw [linkAt?, htmp]) fun hbacks => by
    rw [linkAt?, hbak hbacks]
  have hsame : ∀ l, l ≠ spot p dir → d'.entry? l = d.entry? l := by
    refine hstage.entry?_eq_of_ne htmp.symm ?_
    split
    case isTrue hbacks => exact (hbak hbacks).symm
    case isFalse => rfl
  have hsite := h.of_admits hadmits hstage.closed hstage.current (hstage.own ▸ isPlain_file content)
    fun l hl => .inl (hsame l hl)
  refine ⟨hstage.content?_eq hsite hp, fun l hl => ?_⟩
  rw [hsame l hl]
  exact hgrows.entries l

/-- What is gone in the end was not there before if nothing but the file has changed. -/
theorem unused_of_replaces (hreplaces : Replaces start d d' p dir content)
    (hbackup : d.backsUp p backup = true → d.linkAt? (spare p dir ".bak") = none) : d.Unused p dir backup := by
  -- nor has a directory been made there
  have hunused (s : String) (hs : IsSuffix s) (hnone : d'.entry? (spare p dir s) = none)
      (hother : d.entry? (spare p dir s) ≠ some .directory) : d.entry? (spare p dir s) = none := by
    have hnew : start.entry? (spare p dir s) = none := by
      obtain hsame | ⟨hnew, -⟩ := hreplaces.others _ (spare_ne_spot hs)
      · rw [← hsame, hnone]
      · exact hnew
    obtain hsame | ⟨-, hdirectory, -⟩ := hgrows.entries (spare p dir s)
    · rw [hsame, hnew]
    · exact absurd hdirectory hother
  have hstage := stage_of_done hd hcurrent h hp hdone
  have hgone := (temporary_of_done hd hcurrent h hp hdone).1
  have htmp : d.entry? (spare p dir ".tmp") = none := by
    refine hunused ".tmp" isSuffix_temporary hgone fun hdirectory => ?_
    exact (hstage (linkAt?_of_directory hdirectory) hbackup).1.ne_directory hdirectory
  obtain ⟨-, hplain, hstage⟩ := hstage (by rw [linkAt?, htmp]) hbackup
  refine ⟨htmp, fun hbacks => hunused ".bak" isSuffix_backup ?_ (hplain hbacks).ne_directory⟩
  rw [hstage.backup, if_pos hbacks]

end Done

/-- When a write is done, nothing but the file has changed where nothing stood at the places that the write uses
besides; and what stood there is gone. -/
theorem atomicWrite_replaces (hd : d.Closed) (hcurrent : d.entry? d.current = some .directory)
    (h : d.atomicWrite p content backup = (d', .done)) :
    ∃ made dir, d.makeDirectories (directory (tidy p)) = (made, true) ∧ made.Site p dir ∧
      (made.linkAt? (spot p dir) = none ∨ made.isFile p = true → made.Admits p dir) ∧
      (made.linkAt? (spare p dir ".tmp") = none →
        (made.backsUp p backup = true → made.linkAt? (spare p dir ".bak") = none) →
        Stage made p dir (some (.file content)) none
          (if made.backsUp p backup = true then none else made.entry? (spare p dir ".bak")) d') ∧
      (made.Admits p dir → made.Unused p dir backup → Replaces d made d' p dir content) ∧
      (Replaces d made d' p dir content →
        (made.backsUp p backup = true → made.linkAt? (spare p dir ".bak") = none) → made.Unused p dir backup) := by
  have hp : steps p ≠ [] := by
    rintro hp
    rw [atomicWrite, if_pos (by simpa using hp)] at h
    cases (Prod.mk.inj h).2
  rw [← atomicWriteUnder_none, atomicWriteUnder, if_neg (by simpa using hp)] at h
  split at h
  case h_1 =>
    rw [rollBackUnder_none] at h
    exact absurd (congrArg Prod.snd h) (rollBack_ne_done _ _ _)
  case h_2 made hmake =>
    obtain ⟨hgrows, hleads, -⟩ := makeDirectoriesUnder_grows hd hcurrent hp hmake
    have hmake : d.makeDirectories (directory (tidy p)) = (made, true) := by
      rw [← makeDirectoriesUnder_none]
      exact hmake
    obtain ⟨dir, hsite⟩ := hleads rfl
    have hcurrent' : made.entry? made.current = some .directory := by
      rw [hgrows.current]
      exact hgrows.entry?_of_some hcurrent
    obtain ⟨-, hfree⟩ := temporary_of_done hgrows.closed hcurrent' hsite hp h
    refine ⟨made, dir, hmake, hsite, ?_, fun htemporary hbackup =>
      (stage_of_done hgrows.closed hcurrent' hsite hp h htemporary hbackup).2.2,
      replaces_of_unused hgrows.closed hcurrent' hsite hp h hgrows,
      unused_of_replaces hgrows.closed hcurrent' hsite hp h hgrows⟩
    rintro (hlink | hfile)
    · exact hsite.admits (isPlain_iff.mpr ⟨hlink, hfree⟩)
    · obtain ⟨bytes, hbytes⟩ := Option.isSome_iff_exists.mp hfile
      exact hsite.admits_of_content? hp hbytes

/-- A file, and another one that has the name of its backup. -/
def neighbours : Disk :=
  ⟨[(["a.txt"], .file "one".toUTF8), (["a.txt.bak"], .file "mine".toUTF8)], []⟩

/-- Writing the first file without a backup changes nothing else; with one, it takes the other file away. -/
theorem neighbours_replaced :
    neighbours.Closed ∧ neighbours.entry? neighbours.current = some .directory ∧
      (neighbours.atomicWrite "a.txt" "two".toUTF8 false).2 = .done ∧
      (neighbours.atomicWrite "a.txt" "two".toUTF8 true).2 = .done ∧
      ∃ made, Replaces neighbours made (neighbours.atomicWrite "a.txt" "two".toUTF8 false).1 "a.txt" [] "two".toUTF8 ∧
        ¬ Replaces neighbours made (neighbours.atomicWrite "a.txt" "two".toUTF8 true).1 "a.txt" [] "two".toUTF8 := by
  have hclosed : neighbours.Closed := closed_of_entries (by decide +kernel)
  have hcurrent : neighbours.entry? neighbours.current = some .directory := rfl
  have hplain : (neighbours.atomicWrite "a.txt" "two".toUTF8 false).2 = .done := by decide +kernel
  have hsaved : (neighbours.atomicWrite "a.txt" "two".toUTF8 true).2 = .done := by decide +kernel
  have hmade : ∀ made, neighbours.makeDirectories (directory (tidy "a.txt")) = (made, true) →
      made.walk? true maxHops (origin "a.txt" made.current) (steps "a.txt").dropLast = some [] ∧
        made.linkAt? (spot "a.txt" []) = none ∧ made.linkAt? (spare "a.txt" [] ".bak") = none ∧
        (made.entry? (spare "a.txt" [] ".tmp")).isNone = true ∧
        (made.entry? (spare "a.txt" [] ".bak")).isNone = false ∧ made.backsUp "a.txt" true = true ∧
        made.backsUp "a.txt" false = false := by
    intro made hmake
    obtain rfl : (neighbours.makeDirectories (directory (tidy "a.txt"))).1 = made := by rw [hmake]
    decide +kernel
  have hdone (backup : Bool) (h : (neighbours.atomicWrite "a.txt" "two".toUTF8 backup).2 = .done) :
      neighbours.atomicWrite "a.txt" "two".toUTF8 backup =
        ((neighbours.atomicWrite "a.txt" "two".toUTF8 backup).1, .done) := by
    rw [← h]
  obtain ⟨made, dir, hmake, hsite, hadmits, -, hreplaces, -⟩ :=
    atomicWrite_replaces hclosed hcurrent (hdone false hplain)
  obtain ⟨made', dir', hmake', hsite', -, -, -, hunused⟩ :=
    atomicWrite_replaces hclosed hcurrent (hdone true hsaved)
  obtain rfl : made = made' := congrArg Prod.fst (hmake.symm.trans hmake')
  obtain ⟨hleads, hlink, hbackup, htemporary, hthere, hbacks, hnone⟩ := hmade made hmake
  obtain rfl := Option.some.inj (hsite.leads.symm.trans hleads)
  obtain rfl := Option.some.inj (hsite'.leads.symm.trans hleads)
  refine ⟨hclosed, hcurrent, hplain, hsaved, made, hreplaces (hadmits (.inl hlink)) ⟨?_, fun hbacks => ?_⟩,
    fun hreplaced => ?_⟩
  · simpa using htemporary
  · rw [hnone] at hbacks
    cases hbacks
  · rw [(hunused hreplaced fun _ => hbackup).2 hbacks] at hthere
    cases hthere

end SourceChange.Disk
