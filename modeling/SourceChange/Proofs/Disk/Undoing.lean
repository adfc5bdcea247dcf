import SourceChange.Proofs.Disk.Bystanders

/-!
Writes that are undone.

A write that fails, whichever of its steps it is, has changed nothing but missing directories, provided that nothing
stood at the places that it uses besides that of the file, that no step of clearing up fails and that the backup has
not been cut short. Otherwise it does not hold: a directory in place of the temporary file cannot be removed, a backup
of which only the beginning is there takes the place of the file, and what cannot be cleared up stays.
-/

namespace SourceChange.Disk

open SourceChange.Path

variable {d d' made : Disk} {p : String} {dir l : Location} {content : ByteArray} {backup : Bool} {f : Faults}

/-- A disk is as it was when the directories of a path were made, except that the path may hold by itself what it held
by a link. -/
structure Undone (made d' : Disk) (p : String) (dir : Location) : Prop where
  content : d'.content? p = made.content? p
  others : ∀ l, l ≠ spot p dir → d'.entry? l = made.entry? l
  own : d'.entry? (spot p dir) = made.entry? (spot p dir) ∨
    ∃ target bytes, made.entry? (spot p dir) = some (.link target) ∧ made.content? p = some bytes ∧
      d'.entry? (spot p dir) = some (.file bytes)

/-- If a write makes a backup, it is a copy of all of the file. -/
def SavesWhole (f : Faults) (made : Disk) (p : String) (backup : Bool) : Prop :=
  made.backsUp p backup = true → f.copy = none ∧ made.isFile p = true

/-- How a write ends once the directories are made, whichever of its steps fail. -/
structure Ends (f : Faults) (made : Disk) (p : String) (dir : Location) (backup : Bool) (result : Disk × WriteEnd) :
    Prop where
  /-- A directory in place of the temporary file is not cleared up. -/
  blocked : made.entry? (spare p dir ".tmp") = some .directory → result.2 = .stuck
  /-- Where nothing is in its way and all is cleared up, a write that is not done leaves everything as it was. -/
  undone : made.Unused p dir backup → f.clear = false → f.restore = false → (∀ count, f.copy ≠ some (.after count)) →
    result.2 = .done ∨ result.2 = .failed ∧ Undone made result.1 p dir
  /-- A backup that has been cut short is what the path holds in the end. -/
  cut : made.Unused p dir backup → f.clear = false → f.restore = false → made.backsUp p backup = true →
    ∀ count old, f.copy = some (.after count) → made.content? p = some old →
      result.2 = .failed ∧ result.1.content? p = some (old.extract 0 count)
  /-- A temporary file that cannot be removed stays. -/
  uncleared : made.Unused p dir backup → f.clear = true → made.SavesWhole f p backup →
    f.Strands (made.entry? (spot p dir)) →
      result.2 = .stuck ∧ ∃ bytes, entry? result.1 (spare p dir ".tmp") = some (.file bytes)
  /-- A backup that cannot be put back stays. -/
  unrestored : made.Unused p dir backup → f.clear = false → f.restore = true → made.backsUp p backup = true →
    made.SavesWhole f p backup → f.Strands (made.entry? (spot p dir)) →
      result.2 = .failed ∧ ∃ old, made.content? p = some old ∧
        entry? result.1 (spare p dir ".bak") = some (.file old)

/-- A path leads to the same where everything is the same. -/
theorem content?_congr (hcurrent : d'.current = d.current) (h : ∀ l, d'.entry? l = d.entry? l) :
    d'.content? p = d.content? p := by
  have hplace : d'.place? p = d.place? p := by
    rw [place?, place?, hcurrent]
    refine Option.ext fun loc => ⟨walk?_of_swaps fun l => .inl (h l).symm, walk?_of_swaps fun l => .inl (h l)⟩
  rw [content?, content?, lookup?, lookup?, hplace]
  cases d.place? p with
  | none => rfl
  | some loc => simp only [Option.bind_some, h]

/-- Everything is as it was. -/
theorem Undone.of_entries (hcurrent : d'.current = made.current) (h : ∀ l, d'.entry? l = made.entry? l) :
    Undone made d' p dir :=
  ⟨content?_congr hcurrent h, fun l _ => h l, .inl (h _)⟩

theorem undone_of_stage {own : Option Entry} (hown : own = made.entry? (spot p dir))
    {saved : Option Entry} (hsaved : saved = made.entry? (spare p dir ".bak"))
    (hunused : made.entry? (spare p dir ".tmp") = none) (hstage : Stage made p dir own none saved d') :
    Undone made d' p dir := by
  refine Undone.of_entries hstage.current fun l => ?_
  by_cases hl : l = spot p dir
  · rw [hl, hstage.own, hown]
  · exact hstage.entry?_eq_of_ne hunused.symm hsaved l hl

section Stuck

variable (h : d.Site p dir) (hp : steps p ≠ []) (hdirectory : d.entry? (spare p dir ".tmp") = some .directory)
include h hp hdirectory

theorem rollBackUnder_stuck (backup : Bool) : (d.rollBackUnder f p backup).2 = .stuck := by
  have hpresent : d.isPresent (temporaryPath p) = true :=
    isPresent_of_directory h hp isSuffix_temporary hdirectory
  have hunlink : d.unlink? (temporaryPath p) = none := unlink?_of_directory h hp isSuffix_temporary hdirectory
  rw [rollBackUnder]
  simp only [hpresent, hunlink, if_true, ite_self]

theorem replaceFileUnder_stuck (backup : Bool) : (d.replaceFileUnder f p content backup).2 = .stuck := by
  have hwrite (bytes : ByteArray) : d.writeFile? (temporaryPath p) bytes = none :=
    writeFile?_of_directory h hp isSuffix_temporary hdirectory bytes
  have hfails : d.writeFileUnder f.write (temporaryPath p) content = (d, false) := by
    unfold writeFileUnder
    split
    · rw [hwrite, orElse]
    · rfl
    · rw [hwrite, Option.getD_none]
  rw [replaceFileUnder, hfails]
  exact rollBackUnder_stuck h hp hdirectory backup

end Stuck

section Made

variable (hd : made.Closed) (hcurrent : made.entry? made.current = some .directory) (h : made.Site p dir)
  (hp : steps p ≠ [])
include h hp

include hd hcurrent in
theorem overwriteUnder_stuck (hdirectory : made.entry? (spare p dir ".tmp") = some .directory) :
    (made.overwriteUnder f p content backup).2 = .stuck := by
  rw [overwriteUnder]
  split
  case isFalse => exact replaceFileUnder_stuck h hp hdirectory false
  case isTrue =>
    have hcopied {copied : Disk} {flag : Bool} (hcopy : made.copyUnder f.copy p (backupPath p) = (copied, flag)) :
        copied.Site p dir ∧ copied.entry? (spare p dir ".tmp") = some .directory := by
      obtain ⟨rfl, -⟩ | ⟨_, _, -, hwrite, -⟩ := copyUnder_cases hcopy
      · exact ⟨h, hdirectory⟩
      · obtain ⟨hclosed, hsame, hswaps⟩ := writeFile?_swaps hd hcurrent hwrite
        exact ⟨h.of_swaps hclosed hsame hswaps, entry?_of_swaps (hswaps _) hdirectory⟩
    split
    case h_1 copied hcopy =>
      obtain ⟨hsite, hdirectory⟩ := hcopied hcopy
      exact rollBackUnder_stuck hsite hp hdirectory true
    case h_2 copied hcopy =>
      obtain ⟨hsite, hdirectory⟩ := hcopied hcopy
      exact replaceFileUnder_stuck hsite hp hdirectory true

/-- A backup takes the place of the file, and nothing is left beside it. -/
theorem Stage.restored {bytes : ByteArray} (hsaved : made.content? p = some bytes)
    (hunused : made.entry? (spare p dir ".tmp") = none ∧ made.entry? (spare p dir ".bak") = none)
    {old : ByteArray} (hstage : Stage made p dir (some (.file old)) none none d') :
    d'.content? p = some old ∧ (old = bytes → Undone made d' p dir) := by
  have hadmits := h.admits_of_content? hp hsaved
  have hothers := hstage.entry?_eq_of_ne hunused.1.symm hunused.2.symm
  have hsite := h.of_admits hadmits hstage.closed hstage.current (hstage.own ▸ isPlain_file old)
    fun l hl => .inl (hothers l hl)
  have hcontent := hstage.content?_eq hsite hp
  refine ⟨hcontent, ?_⟩
  rintro rfl
  refine ⟨hcontent.trans hsaved.symm, hothers, ?_⟩
  rw [hstage.own]
  cases hown : made.entry? (spot p dir) with
  | none =>
    have hplace := h.place?_eq hp (by rw [linkAt?, hown])
    rw [content?, lookup?, hplace, Option.bind_some, hown] at hsaved
    cases hsaved
  | some e =>
    cases e with
    | directory => exact absurd hown hadmits.free
    | link target => exact .inr ⟨target, old, rfl, hsaved, rfl⟩
    | file present =>
      have hplace := h.place?_eq hp (by rw [linkAt?, hown])
      rw [content?, lookup?, hplace, Option.bind_some, hown] at hsaved
      rw [Option.some.inj hsaved]
      exact .inl rfl

/-- A file is copied as it is to where nothing stands. -/
theorem copy?_unused {old : ByteArray} (hbak : made.entry? (spare p dir ".bak") = none)
    (hcontent : made.content? p = some old) :
    made.copy? p (backupPath p) = made.writeFile? (backupPath p) old := by
  have hspare : made.place? (backupPath p) = some (spare p dir ".bak") :=
    h.place?_spare hp isSuffix_backup (by rw [linkAt?, hbak])
  obtain ⟨file, hplace, hentry⟩ := Option.bind_eq_some_iff.mp (lookup?_of_content? hcontent)
  have hapart : ¬ (some file == some (spare p dir ".bak")) = true := by
    intro heq
    rw [Option.some.inj (beq_iff_eq.mp heq), hbak] at hentry
    cases hentry
  rw [copy?]
  simp only [if_neg (h.not_isDirectory_backup hp (hbak ▸ isPlain_none)), hcontent, hplace, hspare,
    Option.bind_eq_bind, Option.bind_some, if_neg hapart]

/-- A write that breaks off while the temporary file is there has come to clearing up, and its backup is there. -/
theorem overwriteUnder_strands (hunused : made.Unused p dir backup) (hsaves : made.SavesWhole f p backup)
    (hstrands : f.Strands (made.entry? (spot p dir))) :
    ∃ d' bytes saved, made.overwriteUnder f p content backup = d'.rollBackUnder f p (made.backsUp p backup) ∧
      Stage made p dir (made.entry? (spot p dir)) (some (.file bytes)) saved d' ∧ d'.Site p dir ∧
      (made.backsUp p backup = true → ∃ old, made.content? p = some old ∧ saved = some (.file old)) := by
  obtain ⟨htmp, hbak⟩ := hunused
  have hstart := Stage.start h.closed p dir
  rw [htmp] at hstart
  rw [overwriteUnder]
  cases hbacks : made.backsUp p backup with
  | false =>
    obtain ⟨d', bytes, hreplace, hstage, hsite⟩ :=
      hstart.replaceFileUnder_strands h hp content false isPlain_none hstrands
    exact ⟨d', bytes, _, by simpa using hreplace, hstage, hsite, fun hfalse => by cases hfalse⟩
  | true =>
    obtain ⟨hwhole, hfile⟩ := hsaves hbacks
    obtain ⟨old, hcontent⟩ := Option.isSome_iff_exists.mp hfile
    rw [hbak hbacks] at hstart
    obtain ⟨copied, hsave, hstage, hsite, -⟩ := hstart.saves h hp isPlain_none old
    have hcopy : made.copyUnder f.copy p (backupPath p) = (copied, true) := by
      rw [hwhole, copyUnder, copy?_unused h hp (hbak hbacks) hcontent, hsave, orElse]
    obtain ⟨d', bytes, hreplace, hstage, hsite⟩ :=
      hstage.replaceFileUnder_strands hsite hp content true isPlain_none hstrands
    refine ⟨d', bytes, _, ?_, hstage, hsite, fun _ => ⟨old, hcontent, rfl⟩⟩
    rw [if_pos rfl, hcopy]
    exact hreplace

variable (hclear : f.clear = false) (hrestore : f.restore = false) (hunused : made.Unused p dir backup)
include hclear hrestore hunused

/-- A write that is not done is undone, unless the backup has been cut short. -/
theorem overwriteUnder_undoes (hwhole : ∀ count, f.copy ≠ some (.after count)) :
    ∃ d', made.overwriteUnder f p content backup = (d', .done) ∨
      made.overwriteUnder f p content backup = (d', .failed) ∧ Undone made d' p dir := by
  obtain ⟨htmp, hbak⟩ := hunused
  have hstart := Stage.start h.closed p dir
  rw [htmp] at hstart
  rw [overwriteUnder]
  split
  case isFalse =>
    obtain ⟨d', ⟨hdone, -⟩ | ⟨hfailed, hstage⟩⟩ := hstart.replaceFileUnder h hp content false hclear hrestore
      isPlain_none (fun hfalse => absurd hfalse Bool.false_ne_true)
    · exact ⟨d', .inl hdone⟩
    · exact ⟨d', .inr ⟨hfailed, undone_of_stage rfl rfl htmp (by simpa using hstage)⟩⟩
  case isTrue hsaves =>
    have hbak := hbak hsaves
    rw [hbak] at hstart
    split
    case h_1 copied hcopy =>
      obtain ⟨rfl, -⟩ | ⟨_, _, _, _, _, hcut⟩ := copyUnder_cases hcopy
      · obtain ⟨d', hfailed, hstage⟩ := hstart.rollBackUnder h hp true hclear hrestore isPlain_none
          fun _ => .inl rfl
        exact ⟨d', .inr ⟨hfailed, undone_of_stage rfl hbak.symm htmp (by simpa using hstage)⟩⟩
      · obtain ⟨count, hcount, -⟩ := hcut rfl
        exact absurd hcount (hwhole count)
    case h_2 copied hcopy =>
      obtain ⟨-, hfalse⟩ | ⟨old, bytes, hcontent, hwrite, hbytes, -⟩ := copyUnder_cases hcopy
      · cases hfalse
      · obtain rfl := hbytes rfl
        rw [if_neg (h.not_isDirectory_backup hp (hbak ▸ isPlain_none))] at hwrite
        obtain ⟨saved, hsave, hstage, hsite, hadmits⟩ := hstart.saves h hp isPlain_none bytes
        obtain rfl := Option.some.inj (hwrite.symm.trans hsave)
        obtain ⟨d', ⟨hdone, -⟩ | ⟨hfailed, hstage⟩⟩ := hstage.replaceFileUnder hsite hp content true hclear hrestore
          isPlain_none
          fun _ => ⟨⟨bytes, rfl⟩, hadmits (h.admits_of_content? hp hcontent)⟩
        · exact ⟨d', .inl hdone⟩
        · have hrestored := Stage.restored h hp hcontent ⟨htmp, hbak⟩ (by simpa using hstage)
          exact ⟨d', .inr ⟨hfailed, hrestored.2 rfl⟩⟩

/-- A backup of which only the beginning has been written takes the place of the file. -/
theorem overwriteUnder_cut {count : Nat} {old : ByteArray} (hcut : f.copy = some (.after count))
    (hsaves : made.backsUp p backup = true) (hcontent : made.content? p = some old) :
    ∃ d', made.overwriteUnder f p content backup = (d', .failed) ∧
      d'.content? p = some (old.extract 0 count) := by
  obtain ⟨htmp, hbak⟩ := hunused
  have hbak := hbak hsaves
  have hstart := Stage.start h.closed p dir
  rw [htmp, hbak] at hstart
  have hfree : made.entry? (spot p dir) ≠ some .directory := (h.admits_of_content? hp hcontent).free
  have hfile := h.not_isDirectory_backup hp (hbak ▸ isPlain_none)
  obtain ⟨copied, hcopied, -⟩ := hstart.saves h hp isPlain_none old
  rw [← copy?_unused h hp hbak hcontent] at hcopied
  obtain ⟨saved, hsave, hstage, hsite, -⟩ := hstart.saves h hp isPlain_none (old.extract 0 count)
  have hpart : made.copyUnder f.copy p (backupPath p) = (saved, false) := by
    have hpart := copyPart?_eq count hcontent hcopied
    rw [if_neg hfile, hsave] at hpart
    rw [hcut, copyUnder_after, hpart, Option.getD_some]
  obtain ⟨d', hfailed, hstage⟩ := hstage.rollBackUnder hsite hp true hclear hrestore isPlain_none
    fun _ => .inr ⟨⟨_, rfl⟩, hfree⟩
  rw [overwriteUnder, if_pos hsaves, hpart]
  exact ⟨d', hfailed, (Stage.restored h hp hcontent ⟨htmp, hbak⟩ (by simpa using hstage)).1⟩

end Made

theorem ends_overwriteUnder (hd : made.Closed) (hcurrent : made.entry? made.current = some .directory)
    (h : made.Site p dir) (hp : steps p ≠ []) : Ends f made p dir backup (made.overwriteUnder f p content backup) where
  blocked := overwriteUnder_stuck hd hcurrent h hp
  undone hunused hclear hrestore hwhole := by
    obtain ⟨d', hdone | ⟨hfailed, hundone⟩⟩ := overwriteUnder_undoes h hp hclear hrestore hunused hwhole
    · rw [hdone]
      exact .inl rfl
    · rw [hfailed]
      exact .inr ⟨rfl, hundone⟩
  cut hunused hclear hrestore hsaves count old hcut hcontent := by
    obtain ⟨d', hfailed, hold⟩ := overwriteUnder_cut h hp hclear hrestore hunused hcut hsaves hcontent
    rw [hfailed]
    exact ⟨rfl, hold⟩
  uncleared hunused hclear hsaves hstrands := by
    obtain ⟨d', bytes, saved, hends, hstage, hsite, -⟩ := overwriteUnder_strands h hp hunused hsaves hstrands
    rw [hends, hstage.rollBackUnder_uncleared hsite hp _ hclear rfl]
    exact ⟨rfl, bytes, hstage.temporary⟩
  unrestored hunused hclear hrestore hbacks hsaves hstrands := by
    obtain ⟨d', bytes, saved, hends, hstage, hsite, hsaved⟩ := overwriteUnder_strands h hp hunused hsaves hstrands
    obtain ⟨old, hcontent, rfl⟩ := hsaved hbacks
    obtain ⟨after, hfailed, hstage⟩ := hstage.rollBackUnder_unrestored hsite hp hclear hrestore (isPlain_file bytes)
    rw [hends, hbacks, hfailed]
    exact ⟨rfl, old, hcontent, hstage.backup⟩

/-- A write whose directories cannot all be made fails with nothing else changed, and every other one `Ends`: whatever
step of it fails, it has changed nothing but missing directories, if nothing stood at the places that it uses besides
that of the file, clearing up does not fail and the backup has not been cut short. -/
theorem atomicWrite_undoes (hd : d.Closed) (hcurrent : d.entry? d.current = some .directory) :
    d.atomicWriteUnder {} p content backup = d.atomicWrite p content backup ∧
      (steps p = [] → d.atomicWriteUnder f p content backup = (d, .noName)) ∧
      (steps p ≠ [] → ∃ made flag, d.makeDirectoriesUnder f.directories (directory (tidy p)) = (made, flag) ∧
        Grows p d made ∧ (flag = false → d.atomicWriteUnder f p content backup = (made, .failed)) ∧
        (flag = true → ∃ dir, made.Site p dir ∧
          Ends f made p dir backup (d.atomicWriteUnder f p content backup))) := by
  refine ⟨atomicWriteUnder_none d p content backup, fun hp => ?_, fun hp => ?_⟩
  · rw [atomicWriteUnder, if_pos (by simpa using hp)]
  · rcases hmake : d.makeDirectoriesUnder f.directories (directory (tidy p)) with ⟨made, flag⟩
    obtain ⟨hgrows, hleads, habsent⟩ := makeDirectoriesUnder_grows hd hcurrent hp hmake
    refine ⟨made, flag, rfl, hgrows, ?_, ?_⟩
    · rintro rfl
      have hpresent : made.isPresent (temporaryPath p) = false := habsent rfl ".tmp" isSuffix_temporary
      rw [atomicWriteUnder, if_neg (by simpa using hp), hmake]
      simp only [rollBackUnder, hpresent, Bool.false_and, Bool.false_eq_true, if_false]
    · rintro rfl
      obtain ⟨dir, hsite⟩ := hleads rfl
      have hcurrent' : made.entry? made.current = some .directory := by
        rw [hgrows.current]
        exact hgrows.entry?_of_some hcurrent
      rw [atomicWriteUnder_eq hp hmake]
      exact ⟨dir, hsite, ends_overwriteUnder hgrows.closed hcurrent' hsite hp⟩

/-- A file by itself. -/
def single : Disk := ⟨[(["a.txt"], .file "one".toUTF8)], []⟩

/-- A file, and a directory in place of its temporary file. -/
def blocked : Disk := { single with entries := (["a.txt.tmp"], .directory) :: single.entries }

/-- The file lies in a directory that is there, and nothing is beside it. -/
theorem single_made {flag : Bool} (hmake : single.makeDirectoriesUnder none (directory (tidy "a.txt")) = (made, flag)) :
    flag = true ∧ made.walk? true maxHops (origin "a.txt" made.current) (steps "a.txt").dropLast = some [] ∧
      made.Unused "a.txt" [] true ∧ made.backsUp "a.txt" true = true ∧
      made.content? "a.txt" = some "one".toUTF8 := by
  obtain rfl : (single.makeDirectoriesUnder none (directory (tidy "a.txt"))).1 = made := by rw [hmake]
  obtain rfl : (single.makeDirectoriesUnder none (directory (tidy "a.txt"))).2 = flag := by rw [hmake]
  refine ⟨by decide +kernel, by decide +kernel, ⟨?_, fun _ => ?_⟩, by decide +kernel, by decide +kernel⟩
  · exact Option.isNone_iff_eq_none.mp (by decide +kernel)
  · exact Option.isNone_iff_eq_none.mp (by decide +kernel)

theorem blocked_made {flag : Bool}
    (hmake : blocked.makeDirectoriesUnder none (directory (tidy "a.txt")) = (made, flag)) :
    flag = true ∧ made.walk? true maxHops (origin "a.txt" made.current) (steps "a.txt").dropLast = some [] ∧
      made.entry? (spare "a.txt" [] ".tmp") = some .directory := by
  obtain rfl : (blocked.makeDirectoriesUnder none (directory (tidy "a.txt"))).1 = made := by rw [hmake]
  obtain rfl : (blocked.makeDirectoriesUnder none (directory (tidy "a.txt"))).2 = flag := by rw [hmake]
  exact ⟨by decide +kernel, by decide +kernel, hasDirectory_iff.mp (by decide +kernel)⟩

/-- A write whose temporary file cannot be moved is undone. If the backup breaks off, the file is cut short, and a
directory in place of the temporary file is not cleared up. -/
theorem single_undone :
    (single.Closed ∧ single.entry? single.current = some .directory) ∧
      (blocked.Closed ∧ blocked.entry? blocked.current = some .directory) ∧
      ((single.atomicWriteUnder { move := true } "a.txt" "two".toUTF8 true).2 = .failed ∧
        (single.atomicWriteUnder { move := true } "a.txt" "two".toUTF8 true).1.content? "a.txt" = some "one".toUTF8) ∧
      ((single.atomicWriteUnder { copy := some (.after 1) } "a.txt" "two".toUTF8 true).2 = .failed ∧
        (single.atomicWriteUnder { copy := some (.after 1) } "a.txt" "two".toUTF8 true).1.content? "a.txt" =
          some ("one".toUTF8.extract 0 1)) ∧
      (blocked.atomicWrite "a.txt" "two".toUTF8 true).2 = .stuck := by
  have hclosed : single.Closed := closed_of_entries (by decide +kernel)
  have hcurrent : single.entry? single.current = some .directory := rfl
  have hclosed' : blocked.Closed := closed_of_entries (by decide +kernel)
  have hcurrent' : blocked.entry? blocked.current = some .directory := rfl
  have hsteps : steps "a.txt" ≠ [] := by decide +kernel
  have hmoves : (single.atomicWriteUnder { move := true } "a.txt" "two".toUTF8 true).2 = .failed := by
    decide +kernel
  refine ⟨⟨hclosed, hcurrent⟩, ⟨hclosed', hcurrent'⟩, ?_, ?_, ?_⟩
  · obtain ⟨-, -, hwrites⟩ := @atomicWrite_undoes single "a.txt" "two".toUTF8 true { move := true } hclosed hcurrent
    obtain ⟨made, flag, hmake, -, -, hmade⟩ := hwrites hsteps
    obtain ⟨hflag, hleads, hunused, -, hcontent⟩ := single_made hmake
    obtain ⟨dir, hsite, hends⟩ := hmade hflag
    obtain rfl := Option.some.inj (hsite.leads.symm.trans hleads)
    obtain hdone | ⟨hfailed, hundone⟩ := hends.undone hunused rfl rfl (by simp)
    · rw [hmoves] at hdone
      cases hdone
    · exact ⟨hfailed, hundone.content.trans hcontent⟩
  · obtain ⟨-, -, hwrites⟩ := @atomicWrite_undoes single "a.txt" "two".toUTF8 true { copy := some (.after 1) } hclosed
      hcurrent
    obtain ⟨made, flag, hmake, -, -, hmade⟩ := hwrites hsteps
    obtain ⟨hflag, hleads, hunused, hsaves, hcontent⟩ := single_made hmake
    obtain ⟨dir, hsite, hends⟩ := hmade hflag
    obtain rfl := Option.some.inj (hsite.leads.symm.trans hleads)
    exact hends.cut hunused rfl rfl hsaves 1 _ rfl hcontent
  · obtain ⟨hplain, -, hwrites⟩ := @atomicWrite_undoes blocked "a.txt" "two".toUTF8 true {} hclosed' hcurrent'
    obtain ⟨made, flag, hmake, -, -, hmade⟩ := hwrites hsteps
    obtain ⟨hflag, hleads, hdirectory⟩ := blocked_made hmake
    obtain ⟨dir, hsite, hends⟩ := hmade hflag
    obtain rfl := Option.some.inj (hsite.leads.symm.trans hleads)
    rw [← hplain]
    exact hends.blocked hdirectory

/-- A text that cannot be encoded leaves the file, its backup and an empty temporary file. -/
example :
    (single.atomicWriteUnder .unencodable "a.txt" .empty true).2 = .stuck ∧
      (single.atomicWriteUnder .unencodable "a.txt" .empty true).1.content? "a.txt" = some "one".toUTF8 ∧
      (single.atomicWriteUnder .unencodable "a.txt" .empty true).1.content? "a.txt.bak" = some "one".toUTF8 ∧
      (single.atomicWriteUnder .unencodable "a.txt" .empty true).1.content? "a.txt.tmp" = some .empty := by
  decide +kernel

end SourceChange.Disk
