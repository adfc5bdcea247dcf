import SourceChange.Disk.Basic

/-!
Changing a disk: one step of an operating system at a time, and writes that put the old file back when
they fail.

A step fails as a whole or is done as a whole. `Disk.atomicWrite` is made of several steps, and when one
of them fails it clears up after those before it.
-/

namespace SourceChange.Disk

/-- Makes a directory in one that is there. -/
def makeDirectory? (d : Disk) (p : String) : Option Disk := do
  let loc ← d.ownPlace? p
  if (d.entry? loc).isSome then none else return d.put loc .directory

/-- Makes the directories of a way, as far as they are missing. -/
def makeDirectoriesFrom (d : Disk) (done : String) : List String → Disk × Bool
  | [] => (d, true)
  | name :: rest =>
    let p := Path.join done name
    if d.isDirectory p then makeDirectoriesFrom d p rest
    else
      match d.makeDirectory? p with
      | some d => makeDirectoriesFrom d p rest
      | none => (d, false)

/-- Makes a directory and those above it, as far as they are missing; the flag says whether all are there
now. -/
def makeDirectories (d : Disk) (p : String) : Disk × Bool :=
  d.makeDirectoriesFrom (Path.root p) (Path.steps p)

/-- Writes a file: a link is followed, and a file that is there is replaced. -/
def writeFile? (d : Disk) (p : String) (content : ByteArray) : Option Disk := do
  let loc ← d.place? p
  if d.hasDirectory loc then none else return d.put loc (.file content)

/-- Removes a file or a link. -/
def unlink? (d : Disk) (p : String) : Option Disk := do
  let loc ← d.ownPlace? p
  match d.entry? loc with
  | none | some .directory => none
  | some _ => return d.remove loc

/-- Copies a file; into a directory it is copied under its own name. -/
def copy? (d : Disk) (source target : String) : Option Disk := do
  let target := if d.isDirectory target then Path.join target (Path.lastName source) else target
  let content ← d.content? source
  if d.place? source == d.place? target then none
  d.writeFile? target content

/-- Whether a directory has nothing in it. -/
def isEmptyAt (d : Disk) (loc : Location) : Bool :=
  d.entries.all fun (l, _) => !(loc.isPrefixOf l && l != loc)

/-- Moves what stands at one place, with all that lies below it, to another. -/
def moveTree (d : Disk) (source target : Location) : Disk :=
  let others := d.entries.filter fun (l, _) => !source.isPrefixOf l && l != target
  let moved := (d.entries.filter fun (l, _) => source.isPrefixOf l).map fun (l, e) =>
    (target ++ l.drop source.length, e)
  { d with entries := moved ++ others }

/-- Moves a file, a link or a directory to another path. What stands there is replaced, except that a
directory takes the place of an empty directory only, and nothing else takes the place of a directory. -/
def rename? (d : Disk) (source target : String) : Option Disk := do
  let old ← d.ownPlace? source
  let new ← d.ownPlace? target
  let moving ← d.entry? old
  if old == new then return d
  if old.isPrefixOf new then none
  match moving, d.entry? new with
  | .directory, some .directory => if d.isEmptyAt new then return d.moveTree old new else none
  | .directory, some _ => none
  | _, some .directory => none
  | _, _ => return d.moveTree old new

/-- How an atomic write ended. -/
inductive WriteEnd where
  | done
  /-- A step failed, and what came before it was cleared up. -/
  | failed
  /-- A step failed, and the temporary file was not removed. -/
  | stuck
  /-- The path names no file. -/
  | noName
  deriving DecidableEq, Repr

/-- The temporary file of an atomic write. -/
def temporaryPath (p : String) : String := Path.tidy p ++ ".tmp"

/-- The backup of an atomic write. -/
def backupPath (p : String) : String := Path.tidy p ++ ".bak"

/-- Clears up after a step that failed: the temporary file goes, and the backup, if one was wanted, takes
the place of the file. -/
def rollBack (d : Disk) (p : String) (backup : Bool) : Disk × WriteEnd :=
  let cleared := if d.isPresent (temporaryPath p) then d.unlink? (temporaryPath p) else some d
  match cleared with
  | none => (d, .stuck)
  | some d =>
    if backup && d.isPresent (backupPath p) then ((d.rename? (backupPath p) p).getD d, .failed)
    else (d, .failed)

/-- The end of an atomic write, after the temporary file has been moved: the backup goes. -/
def dropBackup (d : Disk) (p : String) (backup : Bool) : Disk × WriteEnd :=
  if backup && d.isPresent (backupPath p) then
    match d.unlink? (backupPath p) with
    | some d => (d, .done)
    | none => d.rollBack p backup
  else (d, .done)

/-- Writes the temporary file and moves it over the file. -/
def replaceFile (d : Disk) (p : String) (content : ByteArray) (backup : Bool) : Disk × WriteEnd :=
  match d.writeFile? (temporaryPath p) content with
  | none => d.rollBack p backup
  | some d =>
    match d.rename? (temporaryPath p) p with
    | none => d.rollBack p backup
    | some d => d.dropBackup p backup

/-- Writes a file by way of a temporary one. Missing directories are made, and unless `backup` is off, a
file that is there is kept as a backup until the write is done. -/
def atomicWrite (d : Disk) (p : String) (content : ByteArray) (backup : Bool) : Disk × WriteEnd :=
  if Path.steps p == [] then (d, .noName)
  else
    match d.makeDirectories (Path.directory (Path.tidy p)) with
    | (d, false) => d.rollBack p false
    | (d, true) =>
      if backup && d.isPresent p then
        match d.copy? p (backupPath p) with
        | none => d.rollBack p true
        | some d => d.replaceFile p content true
      else d.replaceFile p content false

/-- Deletes a file; the flag says whether it is gone. A directory is not deleted. -/
def delete (d : Disk) (p : String) : Disk × Bool :=
  if !d.isPresent p then (d, true)
  else if d.isDirectory p then (d, false)
  else
    match d.unlink? p with
    | some d => (d, true)
    | none => (d, false)

end SourceChange.Disk
