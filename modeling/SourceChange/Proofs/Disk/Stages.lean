import SourceChange.Proofs.Disk.Directories

/-!
The stages of an atomic write.

Once the directories of a path are made, a write uses three places in one of them: that of the file, that of the
temporary file and that of the backup. Each step of the write, and each step that clears up, changes what stands at
these places and nothing else.
-/

namespace SourceChange.Disk

open SourceChange.Path

variable {d d' made : Disk} {p : String} {dir l : Location} {bytes : ByteArray}
  {own temporary backup : Option Entry} {f : Faults}

/-- What stands at the three places that a write uses. Elsewhere the disk is as it was when the directories were
made. -/
structure Stage (made : Disk) (p : String) (dir : Location) (own temporary backup : Option Entry) (d : Disk) :
    Prop where
  closed : d.Closed
  current : d.current = made.current
  own : d.entry? (spot p dir) = own
  temporary : d.entry? (spare p dir ".tmp") = temporary
  backup : d.entry? (spare p dir ".bak") = backup
  others : ∀ l, l ≠ spot p dir → l ≠ spare p dir ".tmp" → l ≠ spare p dir ".bak" → d.entry? l = made.entry? l

/-- A write breaks off while the temporary file is there: that is cut short, or it cannot take the place of the file. -/
def Faults.Strands (f : Faults) (own : Option Entry) : Prop :=
  (∃ count, f.write = some (.after count)) ∨ f.write = none ∧ (f.move = true ∨ own = some .directory)

theorem isSuffix_of_eq {s : String} (hs : s = ".tmp" ∨ s = ".bak") : IsSuffix s := by
  obtain rfl | rfl := hs
  · exact isSuffix_temporary
  · exact isSuffix_backup

namespace Stage

/-- A disk at its start. -/
theorem start (hmade : made.Closed) (p : String) (dir : Location) : Stage made p dir (made.entry? (spot p dir))
    (made.entry? (spare p dir ".tmp")) (made.entry? (spare p dir ".bak")) made :=
  ⟨hmade, rfl, rfl, rfl, rfl, fun _ _ _ _ => rfl⟩

/-- A disk at its end, if there is beside the file what there was at the start. -/
theorem entry?_eq_of_ne (h : Stage made p dir own temporary backup d)
    (htemporary : temporary = made.entry? (spare p dir ".tmp")) (hbackup : backup = made.entry? (spare p dir ".bak"))
    (l : Location) (hl : l ≠ spot p dir) : d.entry? l = made.entry? l := by
  by_cases htmp : l = spare p dir ".tmp"
  · rw [htmp, h.temporary, htemporary]
  · by_cases hbak : l = spare p dir ".bak"
    · rw [hbak, h.backup, hbackup]
    · exact h.others l hl htmp hbak

end Stage

/-- No copy is made into what is no directory. -/
theorem Site.not_isDirectory_backup (h : d.Site p dir) (hp : steps p ≠ [])
    (hplain : IsPlain (d.entry? (spare p dir ".bak"))) : ¬ d.isDirectory (backupPath p) = true := by
  intro hdirectory
  obtain ⟨loc, hloc, hentry⟩ := hasDirectory_of_isDirectory hdirectory
  have hplace : d.place? (backupPath p) = some (spare p dir ".bak") :=
    h.place?_spare hp isSuffix_backup hplain.linkAt?
  obtain rfl := Option.some.inj (hloc.symm.trans hplace)
  exact hplain.ne_directory hentry

namespace Stage

section Suffix

variable {s : String} (h : Stage made p dir own temporary backup d) (hsite : d.Site p dir)
  (hs : s = ".tmp" ∨ s = ".bak")
include h hsite hs

/-- The temporary file or the backup is written or removed. -/
theorem sets {e : Option Entry} (hsets : Sets d d' (spare p dir s) e) (hold : IsPlain (d.entry? (spare p dir s)))
    (hnew : IsPlain e) :
    Stage made p dir own (if s = ".tmp" then e else temporary) (if s = ".bak" then e else backup) d' ∧
      d'.Site p dir ∧ (d.Admits p dir → d'.Admits p dir) := by
  have hswaps := hsets.swaps hold hnew
  have hentries := hsets.entries
  refine ⟨⟨hsets.closed, hsets.current.trans h.current, ?_, ?_, ?_, fun l hspot htmp hbak => ?_⟩,
    hsite.of_swaps hsets.closed hsets.current hswaps, fun hadmits => hadmits.of_swaps hsets.current hswaps⟩
  · rw [hentries, if_neg (spare_ne_spot (isSuffix_of_eq hs)).symm, h.own]
  · rw [hentries, h.temporary]
    simp [spare, eq_comm]
  · rw [hentries, h.backup]
    simp [spare, eq_comm]
  · have hne : l ≠ spare p dir s := by
      obtain rfl | rfl := hs
      · exact htmp
      · exact hbak
    rw [hentries, if_neg hne, h.others l hspot htmp hbak]

/-- The temporary file or the backup takes the place of the file. -/
theorem moves (hp : steps p ≠ []) (hfile : d.entry? (spare p dir s) = some (.file bytes))
    (hfree : d.entry? (spot p dir) ≠ some .directory) :
    ∃ d', d.rename? (tidy p ++ s) p = some d' ∧
      Stage made p dir (some (.file bytes)) (if s = ".tmp" then none else temporary)
        (if s = ".bak" then none else backup) d' ∧ (d.Admits p dir → d'.Site p dir) := by
  have hsuffix := isSuffix_of_eq hs
  obtain ⟨d', hrename, hclosed, hcurrent, hentries⟩ := rename?_spare hsite hp hsuffix hfile (by simp) hfree
  have hspot : d'.entry? (spot p dir) = some (.file bytes) := by rw [hentries, if_pos rfl]
  refine ⟨d', hrename, ⟨hclosed, hcurrent.trans h.current, hspot, ?_, ?_, fun l hspot htmp hbak => ?_⟩,
    fun hadmits => hsite.of_admits hadmits hclosed hcurrent (hspot ▸ isPlain_file bytes) fun l hl => ?_⟩
  · rw [hentries, if_neg (spare_ne_spot isSuffix_temporary), h.temporary]
    simp [spare, eq_comm]
  · rw [hentries, if_neg (spare_ne_spot isSuffix_backup), h.backup]
    simp [spare, eq_comm]
  · have hne : l ≠ spare p dir s := by
      obtain rfl | rfl := hs
      · exact htmp
      · exact hbak
    rw [hentries, if_neg hspot, if_neg hne, h.others l hspot htmp hbak]
  · rw [hentries, if_neg hl]
    split
    case isTrue heq => exact .inr ⟨heq ▸ hfile ▸ isPlain_file bytes, isPlain_none⟩
    case isFalse => exact .inl rfl

end Suffix

section Named

variable (h : Stage made p dir own temporary backup d) (hsite : d.Site p dir) (hp : steps p ≠ [])
include h hsite hp

theorem writes (htemporary : IsPlain temporary) (bytes : ByteArray) :
    ∃ d', d.writeFile? (temporaryPath p) bytes = some d' ∧
      Stage made p dir own (some (.file bytes)) backup d' ∧ d'.Site p dir ∧ (d.Admits p dir → d'.Admits p dir) := by
  have hplain : IsPlain (d.entry? (spare p dir ".tmp")) := h.temporary ▸ htemporary
  obtain ⟨d', hwrite, hsets⟩ := writeFile?_spare hsite hp isSuffix_temporary hplain bytes
  exact ⟨d', hwrite, by simpa using h.sets hsite (.inl rfl) hsets hplain (isPlain_file bytes)⟩

theorem saves (hbackup : IsPlain backup) (bytes : ByteArray) :
    ∃ d', d.writeFile? (backupPath p) bytes = some d' ∧
      Stage made p dir own temporary (some (.file bytes)) d' ∧ d'.Site p dir ∧
      (d.Admits p dir → d'.Admits p dir) := by
  have hplain : IsPlain (d.entry? (spare p dir ".bak")) := h.backup ▸ hbackup
  obtain ⟨d', hwrite, hsets⟩ := writeFile?_spare hsite hp isSuffix_backup hplain bytes
  exact ⟨d', hwrite, by simpa using h.sets hsite (.inr rfl) hsets hplain (isPlain_file bytes)⟩

theorem isPresent_temporary (htemporary : IsPlain temporary) :
    d.isPresent (temporaryPath p) = temporary.isSome := by
  rw [temporaryPath, hsite.isPresent_spare hp isSuffix_temporary (h.temporary ▸ htemporary).linkAt?, h.temporary]

theorem isPresent_backup (hbackup : IsPlain backup) : d.isPresent (backupPath p) = backup.isSome := by
  rw [backupPath, hsite.isPresent_spare hp isSuffix_backup (h.backup ▸ hbackup).linkAt?, h.backup]

/-- What there is of a temporary file is removed. -/
theorem clears (htemporary : IsPlain temporary) :
    ∃ d', (if d.isPresent (temporaryPath p) = true then d.unlink? (temporaryPath p) else some d) = some d' ∧
      Stage made p dir own none backup d' ∧ d'.Site p dir := by
  rw [h.isPresent_temporary hsite hp htemporary]
  obtain rfl | ⟨bytes, rfl⟩ := htemporary
  · exact ⟨d, rfl, h, hsite⟩
  · obtain ⟨d', hunlink, hsets⟩ := unlink?_spare hsite hp isSuffix_temporary h.temporary
    have hstage := h.sets hsite (.inl rfl) hsets (h.temporary ▸ isPlain_file bytes) isPlain_none
    exact ⟨d', hunlink, by simpa using hstage.1, hstage.2.1⟩

/-- Clearing up leaves no temporary file, and a backup is put back. -/
theorem rollBackUnder (backedUp : Bool) (hclear : f.clear = false) (hrestore : f.restore = false)
    (htemporary : IsPlain temporary)
    (hbackup : backedUp = true → backup = none ∨ (∃ bytes, backup = some (.file bytes)) ∧ own ≠ some .directory) :
    ∃ d', d.rollBackUnder f p backedUp = (d', .failed) ∧
      Stage made p dir (if backedUp = true then backup.or own else own) none
        (if backedUp = true then none else backup) d' := by
  obtain ⟨cleared, hcleared, hstage, hsite⟩ := h.clears hsite hp htemporary
  rw [Disk.rollBackUnder]
  simp only [hclear, hrestore, Bool.false_eq_true, if_false]
  rw [hcleared]
  cases backedUp with
  | false => exact ⟨cleared, by simp, by simpa using hstage⟩
  | true =>
    obtain rfl | ⟨⟨bytes, rfl⟩, hfree⟩ := hbackup rfl
    · have hpresent := hstage.isPresent_backup hsite hp isPlain_none
      exact ⟨cleared, by simp [hpresent], by simpa using hstage⟩
    · have hpresent := hstage.isPresent_backup hsite hp (isPlain_file bytes)
      obtain ⟨d', hrename, hmoved, -⟩ :=
        hstage.moves hsite (.inr rfl) hp hstage.backup (hstage.own.symm ▸ hfree)
      have hrename : cleared.rename? (backupPath p) p = some d' := hrename
      exact ⟨d', by simp [hpresent, hrename], by simpa using hmoved⟩

/-- A temporary file that cannot be removed stays, and the backup is not put back. -/
theorem rollBackUnder_uncleared (backedUp : Bool) (hclear : f.clear = true)
    (htemporary : temporary = some (.file bytes)) : d.rollBackUnder f p backedUp = (d, .stuck) := by
  have hpresent := h.isPresent_temporary hsite hp (htemporary ▸ isPlain_file bytes)
  rw [Disk.rollBackUnder]
  simp [hpresent, htemporary, hclear]

/-- A backup that cannot be put back stays where it is. -/
theorem rollBackUnder_unrestored (hclear : f.clear = false) (hrestore : f.restore = true)
    (htemporary : IsPlain temporary) :
    ∃ d', d.rollBackUnder f p true = (d', .failed) ∧ Stage made p dir own none backup d' := by
  obtain ⟨cleared, hcleared, hstage, hsite⟩ := h.clears hsite hp htemporary
  refine ⟨cleared, ?_, hstage⟩
  rw [Disk.rollBackUnder]
  simp only [hclear, hrestore, Bool.false_eq_true, if_false]
  rw [hcleared]
  simp

/-- At the end the backup goes, or all is cleared up. -/
theorem dropBackupUnder (backedUp : Bool) (hclear : f.clear = false) (hrestore : f.restore = false)
    (htemporary : temporary = none)
    (hbackup : backedUp = true → (∃ bytes, backup = some (.file bytes)) ∧ own ≠ some .directory) :
    ∃ d', d.dropBackupUnder f p backedUp = (d', .done) ∧
        Stage made p dir own none (if backedUp = true then none else backup) d' ∨
      d.dropBackupUnder f p backedUp = (d', .failed) ∧
        Stage made p dir (if backedUp = true then backup else own) none
          (if backedUp = true then none else backup) d' := by
  rw [Disk.dropBackupUnder]
  cases backedUp with
  | false => exact ⟨d, .inl ⟨by simp, by simpa [htemporary] using h⟩⟩
  | true =>
    obtain ⟨⟨bytes, rfl⟩, hfree⟩ := hbackup rfl
    have hpresent := h.isPresent_backup hsite hp (isPlain_file bytes)
    cases hdrop : f.drop with
    | true =>
      obtain ⟨d', hback, hstage⟩ := h.rollBackUnder hsite hp true hclear hrestore (htemporary ▸ isPlain_none)
        fun _ => .inr ⟨⟨bytes, rfl⟩, hfree⟩
      exact ⟨d', .inr ⟨by simp [hpresent, hback], by simpa using hstage⟩⟩
    | false =>
      obtain ⟨d', hunlink, hsets⟩ := unlink?_spare hsite hp isSuffix_backup h.backup
      have hunlink : d.unlink? (backupPath p) = some d' := hunlink
      have hstage := h.sets hsite (.inr rfl) hsets (h.backup ▸ isPlain_file bytes) isPlain_none
      exact ⟨d', .inl ⟨by simp [hpresent, hunlink], by simpa [htemporary] using hstage.1⟩⟩

/-- The temporary file cannot take the place of the file, and it is there when all is cleared up. -/
theorem replaceFileUnder_strands (content : ByteArray) (backedUp : Bool) (htemporary : IsPlain temporary)
    (hstrands : f.Strands own) :
    ∃ d' bytes, d.replaceFileUnder f p content backedUp = d'.rollBackUnder f p backedUp ∧
      Stage made p dir own (some (.file bytes)) backup d' ∧ d'.Site p dir := by
  rw [Disk.replaceFileUnder]
  obtain ⟨count, hwrite⟩ | ⟨hwrite, hmove⟩ := hstrands
  · obtain ⟨written, hwritten, hstage, hsite, -⟩ := h.writes hsite hp htemporary (content.extract 0 count)
    exact ⟨written, _, by simp [hwrite, writeFileUnder, hwritten], hstage, hsite⟩
  · obtain ⟨written, hwritten, hstage, hsite, -⟩ := h.writes hsite hp htemporary content
    have hnone : (if f.move = true then none else written.rename? (temporaryPath p) p) = none := by
      split
      case isTrue => rfl
      case isFalse hstay =>
        obtain hfault | rfl := hmove
        · exact absurd hfault hstay
        · exact rename?_spare_eq_none hsite hp isSuffix_temporary hstage.temporary (by simp) hstage.own
    rw [hwrite, writeFileUnder, hwritten, orElse]
    dsimp only
    rw [hnone]
    exact ⟨written, content, rfl, hstage, hsite⟩

/-- The temporary file is written and takes the place of the file, or all is cleared up. -/
theorem replaceFileUnder (content : ByteArray) (backedUp : Bool) (hclear : f.clear = false)
    (hrestore : f.restore = false) (htemporary : IsPlain temporary)
    (hbackup : backedUp = true → (∃ bytes, backup = some (.file bytes)) ∧ d.Admits p dir) :
    ∃ d', d.replaceFileUnder f p content backedUp = (d', .done) ∧
        Stage made p dir (some (.file content)) none (if backedUp = true then none else backup) d' ∨
      d.replaceFileUnder f p content backedUp = (d', .failed) ∧
        Stage made p dir (if backedUp = true then backup else own) none
          (if backedUp = true then none else backup) d' := by
  have hsaved (hbacked : backedUp = true) : (∃ bytes, backup = some (.file bytes)) ∧ own ≠ some .directory :=
    ⟨(hbackup hbacked).1, h.own ▸ (hbackup hbacked).2.free⟩
  -- a step that fails is cleared up after, whatever there is of the temporary file
  have hfails {t : Option Entry} {d₁ : Disk} (h₁ : Stage made p dir own t backup d₁) (hsite₁ : d₁.Site p dir)
      (ht : IsPlain t) : ∃ d', d₁.rollBackUnder f p backedUp = (d', .failed) ∧
        Stage made p dir (if backedUp = true then backup else own) none
          (if backedUp = true then none else backup) d' := by
    obtain ⟨d', hback, hstage⟩ := h₁.rollBackUnder hsite₁ hp backedUp hclear hrestore ht
      fun hbacked => .inr (hsaved hbacked)
    refine ⟨d', hback, ?_⟩
    cases backedUp with
    | false => simpa using hstage
    | true =>
      obtain ⟨⟨bytes, rfl⟩, -⟩ := hsaved rfl
      simpa using hstage
  by_cases hstrands : f.Strands own
  · obtain ⟨stranded, bytes, hreplace, hstage, hsite⟩ :=
      h.replaceFileUnder_strands hsite hp content backedUp htemporary hstrands
    obtain ⟨d', hback, hstage⟩ := hfails hstage hsite (isPlain_file bytes)
    exact ⟨d', .inr ⟨hreplace.trans hback, hstage⟩⟩
  · obtain ⟨hcut, hmoves⟩ := not_or.mp hstrands
    rw [Disk.replaceFileUnder]
    cases hwrite : f.write with
    | some fault =>
      cases fault with
      | after count => exact absurd ⟨count, hwrite⟩ hcut
      | atOnce =>
        obtain ⟨d', hback, hstage⟩ := hfails h hsite htemporary
        exact ⟨d', .inr ⟨by simp [writeFileUnder, hback], hstage⟩⟩
    | none =>
      obtain ⟨hmove, hfree⟩ := not_or.mp fun hmove => hmoves ⟨hwrite, hmove⟩
      obtain ⟨written, hwritten, hstage, hsite, hadmits⟩ := h.writes hsite hp htemporary content
      obtain ⟨moved, hrename, hmoved, hsite'⟩ :=
        hstage.moves hsite (.inl rfl) hp hstage.temporary (hstage.own.symm ▸ hfree)
      have hrename : written.rename? (temporaryPath p) p = some moved := hrename
      rw [writeFileUnder, hwritten, orElse]
      dsimp only
      rw [if_neg hmove, hrename]
      dsimp only
      cases backedUp with
      | false => exact ⟨moved, .inl ⟨by simp [Disk.dropBackupUnder], by simpa using hmoved⟩⟩
      | true =>
        obtain ⟨hbackup, hadmitted⟩ := hbackup rfl
        exact hmoved.dropBackupUnder (hsite' (hadmits hadmitted)) hp true hclear hrestore (by simp)
          fun _ => ⟨by simpa using hbackup, by simp⟩

end Named

end Stage

end SourceChange.Disk
