import SourceChange.Path

/-!
File systems.

A `Disk` says what stands at each place. A path is a way through it: `Disk.walk?` goes that way as an
operating system does, through symbolic links, and `Disk.resolve` finds the place a path leads to even
where nothing stands there yet.
-/

namespace SourceChange

/-- A place on a disk: the names on the way from the root. -/
abbrev Location := List String

/-- What stands at a place. -/
inductive Entry where
  | file (content : ByteArray)
  | directory
  | link (target : String)

namespace Entry

/-- Whether an entry is a directory. -/
def isDirectory : Entry → Bool
  | directory => true
  | _ => false

/-- Whether two entries are the same. -/
def same : Entry → Entry → Bool
  | file a, file b => a.data == b.data
  | directory, directory => true
  | link a, link b => a == b
  | _, _ => false

end Entry

/-- A file system and its current directory. -/
structure Disk where
  entries : List (Location × Entry)
  current : Location

namespace Disk

/-- How many links are followed on one way at most. -/
def maxHops : Nat := 40

/-- What stands at a place; the root is a directory. -/
def entry? (d : Disk) (loc : Location) : Option Entry :=
  match loc with
  | [] => some .directory
  | _ => d.entries.lookup loc

/-- Puts something at a place. -/
def put (d : Disk) (loc : Location) (e : Entry) : Disk :=
  { d with entries := (loc, e) :: d.entries.filter (·.1 != loc) }

/-- Takes away what stands at a place. -/
def remove (d : Disk) (loc : Location) : Disk :=
  { d with entries := d.entries.filter (·.1 != loc) }

/-- Whether a directory stands at a place. -/
def hasDirectory (d : Disk) (loc : Location) : Bool := (d.entry? loc).any Entry.isDirectory

/-- The place where a path starts. -/
def origin (p : String) (here : Location) : Location := if Path.isAbsolute p then [] else here

/-- Goes a way, from a place on, up to the first link that is followed; from there on `jump` goes. Every name
on the way but the last has to lead to a directory; whether the last one, if it is a link, is followed, is for
`follow` to say. -/
def walkWith? (d : Disk) (follow : Bool) (jump : Location → List String → Option Location) :
    Location → List String → Option Location
  | here, [] => some here
  | here, name :: rest =>
    if !d.hasDirectory here then none
    else if name == ".." then walkWith? d follow jump here.dropLast rest
    else
      match d.entry? (here ++ [name]) with
      | some (.link target) =>
        if rest.isEmpty && !follow then some (here ++ [name])
        else jump (origin target here) (Path.steps target ++ rest)
      | _ => walkWith? d follow jump (here ++ [name]) rest

/-- The place that a way leads to, if not too many links have to be followed. -/
def walk? (d : Disk) (follow : Bool) : Nat → Location → List String → Option Location
  | 0 => d.walkWith? follow fun _ _ => none
  | hops + 1 => d.walkWith? follow (walk? d follow hops)

/-- The place that a path leads to; something may stand there or not. -/
def place? (d : Disk) (p : String) : Option Location :=
  d.walk? true maxHops (origin p d.current) (Path.steps p)

/-- The place that a path leads to, where a link at its end is not followed. -/
def ownPlace? (d : Disk) (p : String) : Option Location :=
  d.walk? false maxHops (origin p d.current) (Path.steps p)

/-- What a path leads to. -/
def lookup? (d : Disk) (p : String) : Option Entry := (d.place? p).bind d.entry?

/-- Whether a path leads to something. -/
def isPresent (d : Disk) (p : String) : Bool := (d.lookup? p).isSome

/-- Whether a path leads to a directory. -/
def isDirectory (d : Disk) (p : String) : Bool := (d.lookup? p).any Entry.isDirectory

/-- The content of the file that a path leads to. -/
def content? (d : Disk) (p : String) : Option ByteArray :=
  match d.lookup? p with
  | some (.file bytes) => some bytes
  | _ => none

/-- Whether a path leads to a file. -/
def isFile (d : Disk) (p : String) : Bool := (d.content? p).isSome

/-- Whether more links are met on a way, from a place on, than are followed; `jump` says so of the way from the
first link on. -/
def isEndlessWith (d : Disk) (jump : Location → List String → Bool) : Location → List String → Bool
  | _, [] => false
  | here, name :: rest =>
    if !d.hasDirectory here then false
    else if name == ".." then isEndlessWith d jump here.dropLast rest
    else
      match d.entry? (here ++ [name]) with
      | some (.link target) => jump (origin target here) (Path.steps target ++ rest)
      | _ => isEndlessWith d jump (here ++ [name]) rest

/-- Whether more links are met on a way than are followed. -/
def isEndless (d : Disk) : Nat → Location → List String → Bool
  | 0 => d.isEndlessWith fun _ _ => true
  | hops + 1 => d.isEndlessWith (isEndless d hops)

/-- Where a way leads once its links are followed. -/
inductive Resolution where
  | reached (loc : Location)
  /-- A link leads back to itself. From that link on, the way is taken as it is written. -/
  | circular (loc : Location)
  deriving DecidableEq, Repr

namespace Resolution

/-- The place that a way leads to. -/
def place : Resolution → Location
  | reached loc => loc
  | circular loc => loc

end Resolution

/-- The next place on a way that is taken as it is written. -/
def takePart (here : Location) (part : String) : Location :=
  if part == "" || part == "." then here
  else if part == ".." then here.dropLast
  else here ++ [part]

/-- The place behind another one on a way that is taken as it is written, given by its parts. What starts with
a slash starts at the root again. -/
def behind (loc : Location) (way : List String) : Location :=
  way.foldl takePart (if way.head? == some "" && 1 < way.length then [] else loc)

/-- Goes a way, given by its parts, even where nothing stands on it; of a link, the place that it starts at and
the parts that it has, `jump` finds out where it leads. -/
def resolveWith (d : Disk) (jump : Location → Location → List String → Resolution) :
    Location → List String → Resolution
  | here, [] => .reached here
  | here, part :: rest =>
    if part == "" || part == "." then resolveWith d jump here rest
    else if part == ".." then resolveWith d jump here.dropLast rest
    else
      match d.entry? (here ++ [part]) with
      | some (.link target) =>
        match jump (here ++ [part]) (origin target here) (Path.parts target) with
        | .reached loc => resolveWith d jump loc rest
        | .circular loc => .circular (behind loc rest)
      | _ => resolveWith d jump (here ++ [part]) rest

/-- Where a way leads once its links are followed, while the links in `within` are being followed; no more
than `depth` others are within each other. -/
def resolveFrom (d : Disk) : Nat → List Location → Location → List String → Resolution
  | 0, _ => d.resolveWith fun link _ _ => .circular link
  | depth + 1, within => d.resolveWith fun link start way =>
    if within.contains link then .circular link else resolveFrom d depth (link :: within) start way

/-- Where a way leads from a place on once its links are followed. -/
def resolution (d : Disk) (here : Location) (way : List String) : Resolution :=
  d.resolveFrom d.entries.length [] here way

/-- The place that a path leads to once its links are followed. -/
def resolve (d : Disk) (p : String) : Location := (d.resolution (origin p d.current) (Path.steps p)).place

/-- A place as an absolute path. -/
def pathOf (loc : Location) : String := "/" ++ Path.ofParts loc

/-! ### Files as texts, and the limits on what is read -/

/-- Why a text cannot be read. -/
inductive ReadFailure where
  | missing
  | notText
  deriving DecidableEq, Repr

/-- A text in which every line ends with a line feed alone. -/
def unifyLines : List Char → List Char
  | [] => []
  | '\r' :: '\n' :: cs => '\n' :: unifyLines cs
  | c :: cs => (if c == '\r' then '\n' else c) :: unifyLines cs

/-- The text of a file. -/
def exactText (d : Disk) (p : String) : Except ReadFailure String :=
  match d.content? p with
  | none => .error .missing
  | some bytes =>
    match String.fromUTF8? bytes with
    | some s => .ok s
    | none => .error .notText

/-- The text of a file, in which every line ends with a line feed alone. -/
def readText (d : Disk) (p : String) : Except ReadFailure String :=
  (d.exactText p).map fun s => String.ofList (unifyLines s.toList)

/-- The size up to which files are read. -/
def maxFileSize : Nat := 2 * 1024 * 1024

/-- Whether a path leads to a file that is not too large; nothing where it leads nowhere. -/
def hasFittingFile? (d : Disk) (p : String) : Option Bool :=
  match d.lookup? p with
  | none => none
  | some (.file bytes) => some (bytes.size ≤ maxFileSize)
  | some _ => some false

/-! ### How two disks differ -/

/-- One difference between two disks. -/
inductive Change where
  | made (path : String)
  | written (path : String) (content : ByteArray)
  | gone (path : String)

/-- What is new or different at a place. -/
def changeAt? (old : Disk) (loc : Location) (e : Entry) : Option Change :=
  if (old.entry? loc).any (·.same e) then none
  else
    match e with
    | .directory => some (.made (pathOf loc))
    | .file content => some (.written (pathOf loc) content)
    | .link _ => none

/-- The differences between two disks: what is new or different, and then what is gone. -/
def changes (old new : Disk) : List Change :=
  new.entries.filterMap (fun (loc, e) => changeAt? old loc e) ++
    (old.entries.filter fun (loc, _) => (new.entry? loc).isNone).map fun (loc, _) =>
      Change.gone (pathOf loc)

end Disk

end SourceChange
