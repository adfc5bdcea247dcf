import SourceChange.Proofs.Disk.Ways

/-!
Atomic writes on a disk that may fail.

A step may also fail where nothing stands in its way: the disk is full, or may not be written to. `Faults` says which
steps do, and where a file was being written, after how many bytes. With faults a write goes the way of
`Disk.atomicWrite`; with none, it is that.
-/

namespace SourceChange.Disk

/-- How the writing of a file breaks off: before it is there, or after some bytes. -/
inductive Break where
  | atOnce
  | after (count : Nat)

/-- The steps of an atomic write that fail whatever is on the disk: making directories (after so many of them), the
copy, the temporary file, moving it, dropping the backup, and afterwards removing the temporary file and putting the
backup back. -/
structure Faults where
  directories : Option Nat := none
  copy : Option Break := none
  write : Option Break := none
  move : Bool := false
  drop : Bool := false
  clear : Bool := false
  restore : Bool := false

/-- How a write ends whose text cannot be encoded: the temporary file is made but stays empty, and since no step of the
system failed, nothing is cleared up. -/
def Faults.unencodable : Faults := { write := some (.after 0), clear := true }

/-- Makes the directories of a way, as far as they are missing and as many as can be made. -/
def makeDirectoriesFromUnder (d : Disk) (left : Option Nat) (done : String) : List String → Disk × Bool
  | [] => (d, true)
  | name :: rest =>
    let p := Path.join done name
    if d.isDirectory p then makeDirectoriesFromUnder d left p rest
    else if left == some 0 then (d, false)
    else
      match d.makeDirectory? p with
      | some d => makeDirectoriesFromUnder d (left.map (· - 1)) p rest
      | none => (d, false)

/-- Makes a directory and those above it, as far as they are missing and as many as can be made. -/
def makeDirectoriesUnder (d : Disk) (left : Option Nat) (p : String) : Disk × Bool :=
  d.makeDirectoriesFromUnder left (Path.root p) (Path.steps p)

/-- What a step that may have failed leaves. -/
def orElse (d : Disk) : Option Disk → Disk × Bool
  | some d => (d, true)
  | none => (d, false)

/-- Writes a file, unless it breaks off. -/
def writeFileUnder (d : Disk) (fault : Option Break) (p : String) (content : ByteArray) : Disk × Bool :=
  match fault with
  | none => d.orElse (d.writeFile? p content)
  | some .atOnce => (d, false)
  | some (.after count) => ((d.writeFile? p (content.extract 0 count)).getD d, false)

/-- Copies the first bytes of a file. -/
def copyPart? (d : Disk) (source target : String) (count : Nat) : Option Disk := do
  let content ← d.content? source
  let _ ← d.copy? source target
  d.writeFile? (if d.isDirectory target then Path.join target (Path.lastName source) else target)
    (content.extract 0 count)

/-- Copies a file, unless it breaks off. -/
def copyUnder (d : Disk) (fault : Option Break) (source target : String) : Disk × Bool :=
  match fault with
  | none => d.orElse (d.copy? source target)
  | some .atOnce => (d, false)
  | some (.after count) => ((d.copyPart? source target count).getD d, false)

/-- Clears up after a step that failed, as far as that does not fail. -/
def rollBackUnder (f : Faults) (d : Disk) (p : String) (backup : Bool) : Disk × WriteEnd :=
  let cleared :=
    if d.isPresent (temporaryPath p) then if f.clear then none else d.unlink? (temporaryPath p) else some d
  match cleared with
  | none => (d, .stuck)
  | some d =>
    if backup && d.isPresent (backupPath p) then
      ((if f.restore then none else d.rename? (backupPath p) p).getD d, .failed)
    else (d, .failed)

/-- The end of an atomic write, after the temporary file has been moved. -/
def dropBackupUnder (f : Faults) (d : Disk) (p : String) (backup : Bool) : Disk × WriteEnd :=
  if backup && d.isPresent (backupPath p) then
    match if f.drop then none else d.unlink? (backupPath p) with
    | some d => (d, .done)
    | none => d.rollBackUnder f p backup
  else (d, .done)

/-- Writes the temporary file and moves it over the file. -/
def replaceFileUnder (f : Faults) (d : Disk) (p : String) (content : ByteArray) (backup : Bool) : Disk × WriteEnd :=
  match d.writeFileUnder f.write (temporaryPath p) content with
  | (d, false) => d.rollBackUnder f p backup
  | (d, true) =>
    match if f.move then none else d.rename? (temporaryPath p) p with
    | none => d.rollBackUnder f p backup
    | some d => d.dropBackupUnder f p backup

/-- Whether a write makes a backup. -/
def backsUp (d : Disk) (p : String) (backup : Bool) : Bool := backup && d.isPresent p

/-- Backs a file up and replaces it. -/
def overwriteUnder (f : Faults) (d : Disk) (p : String) (content : ByteArray) (backup : Bool) : Disk × WriteEnd :=
  if d.backsUp p backup then
    match d.copyUnder f.copy p (backupPath p) with
    | (d, false) => d.rollBackUnder f p true
    | (d, true) => d.replaceFileUnder f p content true
  else d.replaceFileUnder f p content false

/-- An atomic write whose steps may fail. -/
def atomicWriteUnder (f : Faults) (d : Disk) (p : String) (content : ByteArray) (backup : Bool) : Disk × WriteEnd :=
  if Path.steps p == [] then (d, .noName)
  else
    match d.makeDirectoriesUnder f.directories (Path.directory (Path.tidy p)) with
    | (d, false) => d.rollBackUnder f p false
    | (d, true) => d.overwriteUnder f p content backup

section None

variable (d : Disk) (p : String) (content : ByteArray) (backup : Bool)

theorem makeDirectoriesUnder_none : d.makeDirectoriesUnder none p = d.makeDirectories p := by
  have hfrom (way : List String) : ∀ (d : Disk) done,
      d.makeDirectoriesFromUnder none done way = d.makeDirectoriesFrom done way := by
    induction way with
    | nil => exact fun _ _ => rfl
    | cons name rest ih =>
      intro d done
      rw [makeDirectoriesFromUnder, makeDirectoriesFrom]
      simp only [Option.map_none, ih]
      rfl
  exact hfrom _ _ _

theorem rollBackUnder_none : d.rollBackUnder {} p backup = d.rollBack p backup := by
  by_cases hpresent : d.isPresent (temporaryPath p) = true
  · cases hunlink : d.unlink? (temporaryPath p) with
    | none => simp [rollBackUnder, rollBack, hpresent, hunlink]
    | some cleared => simp [rollBackUnder, rollBack, hpresent, hunlink]
  · simp [rollBackUnder, rollBack, hpresent]

theorem dropBackupUnder_none : d.dropBackupUnder {} p backup = d.dropBackup p backup := by
  cases hunlink : d.unlink? (backupPath p) with
  | none => simp [dropBackupUnder, dropBackup, hunlink, rollBackUnder_none]
  | some dropped => simp [dropBackupUnder, dropBackup, hunlink]

theorem replaceFileUnder_none :
    d.replaceFileUnder {} p content backup = d.replaceFile p content backup := by
  cases hwrite : d.writeFile? (temporaryPath p) content with
  | none => simp [replaceFileUnder, replaceFile, writeFileUnder, orElse, hwrite, rollBackUnder_none]
  | some written =>
    cases hrename : written.rename? (temporaryPath p) p with
    | none => simp [replaceFileUnder, replaceFile, writeFileUnder, orElse, hwrite, hrename, rollBackUnder_none]
    | some moved => simp [replaceFileUnder, replaceFile, writeFileUnder, orElse, hwrite, hrename, dropBackupUnder_none]

/-- Without faults, a write is what it is. -/
theorem atomicWriteUnder_none : d.atomicWriteUnder {} p content backup = d.atomicWrite p content backup := by
  rw [atomicWriteUnder, atomicWrite]
  simp only [makeDirectoriesUnder_none, overwriteUnder, backsUp, rollBackUnder_none, replaceFileUnder_none,
    copyUnder]
  split
  case isTrue => rfl
  case isFalse =>
    obtain ⟨made, flag⟩ := d.makeDirectories (Path.directory (Path.tidy p))
    cases flag with
    | false => rfl
    | true =>
      dsimp only
      cases made.copy? p (backupPath p) with
      | none => rfl
      | some copied => rfl

end None

variable {d d' : Disk} {source target : String}

/-- Once the directories are made. -/
theorem atomicWriteUnder_eq {f : Faults} {p : String} {content : ByteArray} {backup : Bool}
    (hp : Path.steps p ≠ [])
    (hmake : d.makeDirectoriesUnder f.directories (Path.directory (Path.tidy p)) = (d', true)) :
    d.atomicWriteUnder f p content backup = d'.overwriteUnder f p content backup := by
  rw [atomicWriteUnder, if_neg (by simpa using hp), hmake]

theorem copyUnder_after (count : Nat) :
    d.copyUnder (some (.after count)) source target = ((d.copyPart? source target count).getD d, false) := rfl

/-- Where a file can be copied, its beginning can be. -/
theorem copyPart?_eq (count : Nat) {content : ByteArray} {copied : Disk} (hcontent : d.content? source = some content)
    (hcopied : d.copy? source target = some copied) :
    d.copyPart? source target count =
      d.writeFile? (if d.isDirectory target then Path.join target (Path.lastName source) else target)
        (content.extract 0 count) := by
  simp only [copyPart?, hcontent, hcopied, Option.bind_eq_bind, Option.bind_some]

theorem exists_of_copyPart? {count : Nat} (h : d.copyPart? source target count = some d') :
    ∃ content, d.content? source = some content ∧
      d.writeFile? (if d.isDirectory target then Path.join target (Path.lastName source) else target)
        (content.extract 0 count) = some d' := by
  obtain ⟨content, hcontent, h⟩ := Option.bind_eq_some_iff.mp h
  obtain ⟨-, -, h⟩ := Option.bind_eq_some_iff.mp h
  exact ⟨content, hcontent, h⟩

/-- When a copy has been made, has failed or has broken off, a file has been written or the disk is the same. -/
theorem copyUnder_cases {flag : Bool} {fault : Option Break} (h : d.copyUnder fault source target = (d', flag)) :
    d' = d ∧ flag = false ∨
      ∃ content bytes, d.content? source = some content ∧
        d.writeFile? (if d.isDirectory target then Path.join target (Path.lastName source) else target) bytes =
          some d' ∧
        (flag = true → bytes = content) ∧
        (flag = false → ∃ count, fault = some (.after count) ∧ bytes = content.extract 0 count) := by
  unfold copyUnder at h
  split at h
  case h_1 =>
    cases hcopy : d.copy? source target with
    | none =>
      rw [hcopy, orElse] at h
      obtain ⟨rfl, rfl⟩ := Prod.mk.inj h
      exact .inl ⟨rfl, rfl⟩
    | some copied =>
      rw [hcopy, orElse] at h
      obtain ⟨rfl, rfl⟩ := Prod.mk.inj h
      obtain ⟨content, hcontent, hwrite⟩ := exists_of_copy? hcopy
      exact .inr ⟨content, content, hcontent, hwrite, fun _ => rfl, fun hfalse => by cases hfalse⟩
  case h_2 =>
    obtain ⟨rfl, rfl⟩ := Prod.mk.inj h
    exact .inl ⟨rfl, rfl⟩
  case h_3 count =>
    cases hcopy : d.copyPart? source target count with
    | none =>
      rw [hcopy] at h
      obtain ⟨rfl, rfl⟩ := Prod.mk.inj h
      exact .inl ⟨rfl, rfl⟩
    | some copied =>
      rw [hcopy] at h
      obtain ⟨rfl, rfl⟩ := Prod.mk.inj h
      obtain ⟨content, hcontent, hwrite⟩ := exists_of_copyPart? hcopy
      exact .inr ⟨content, _, hcontent, hwrite, fun hfalse => absurd hfalse Bool.false_ne_true,
        fun _ => ⟨count, rfl, rfl⟩⟩

end SourceChange.Disk
