import SourceChange.Text.Basic
import SourceChange.Text.Case

/-!
Slash-separated paths: their directory, file name and extension, normal form, and the way from one
directory to another.
-/

namespace SourceChange.Path

/-- The parts of a path between its slashes. -/
def parts (p : String) : List String := (Text.splitOnChar '/' p.toList).map String.ofList

/-- Parts put back together. -/
def ofParts (ps : List String) : String := Text.join "/" ps

/-- Whether a path starts at the root. -/
def isAbsolute (p : String) : Bool := Text.hasStart p "/"

/-- Takes one more part into a path in normal form, given by its parts, last first: the part that
stands for the directory itself changes nothing, and a step up takes the last part away. There is
nothing above the root; a relative path keeps its steps up. -/
def pushPart (absolute : Bool) (done : List String) (part : String) : List String :=
  if part == "" || part == "." then done
  else if part == ".." then
    match done with
    | [] => if absolute then [] else [".."]
    | d :: ds => if d == ".." then ".." :: d :: ds else ds
  else part :: done

/-- The parts of a path in normal form. -/
def normalParts (p : String) : List String :=
  ((parts p).foldl (pushPart (isAbsolute p)) []).reverse

/-- The slashes at the start of a path in normal form; exactly two are kept. -/
def root (p : String) : String :=
  if Text.hasStart p "///" then "/"
  else if Text.hasStart p "//" then "//"
  else if Text.hasStart p "/" then "/"
  else ""

/-- A path in normal form. -/
def normalize (p : String) : String :=
  let s := root p ++ ofParts (normalParts p)
  if s == "" then "." else s

/-- Everything before the last slash and everything after it. -/
def split (p : String) : List Char × List Char :=
  let after := p.toList.reverse.takeWhile (· != '/')
  let before := p.toList.reverse.dropWhile (· != '/')
  (before.reverse, after.reverse)

/-- The directory of a path. -/
def directory (p : String) : String :=
  let head := (split p).1
  if head.all (· == '/') then String.ofList head
  else String.ofList (Text.dropEndWhile (· == '/') head)

/-- What follows the last slash. -/
def fileName (p : String) : String := String.ofList (split p).2

/-- A path relative to a directory. -/
def join (dir p : String) : String :=
  if isAbsolute p then p
  else if dir == "" || Text.hasEnd dir "/" then dir ++ p
  else dir ++ "/" ++ p

/-- A path cut before its extension. The dots at the start of a file name start no extension. -/
def splitExtension (p : String) : String × String :=
  let (dir, file) := split p
  let dots := file.takeWhile (· == '.')
  let rest := file.dropWhile (· == '.')
  let suffix := rest.reverse.takeWhile (· != '.')
  if rest.contains '.' then
    let stem := rest.take (rest.length - suffix.length - 1)
    (String.ofList (dir ++ dots ++ stem), String.ofList ('.' :: suffix.reverse))
  else (p, "")

/-- The parts of a path that lead somewhere: empty ones and those that stand for the directory itself are
left out, steps up stay. -/
def steps (p : String) : List String := (parts p).filter fun x => x != "" && x != "."

/-- The last part of a path that names something, where slashes at the end do not count. -/
def lastName (p : String) : String := (steps p).getLast?.getD ""

/-- The extension of the last name: from its last dot on, if the dot is neither first nor last. -/
def suffix (p : String) : String :=
  let name := (lastName p).toList
  let tail := name.reverse.takeWhile (· != '.')
  if name.contains '.' && tail.length + 1 < name.length && !tail.isEmpty then
    String.ofList ('.' :: tail.reverse)
  else ""

/-- A path as messages show it: without empty parts, and without those that stand for the directory
itself. -/
def tidy (p : String) : String :=
  let s := root p ++ ofParts (steps p)
  if s == "" then "." else s

/-- The number of equal parts that two lists start with. -/
def commonLength : List String → List String → Nat
  | a :: as, b :: bs => if a == b then commonLength as bs + 1 else 0
  | _, _ => 0

/-- The way from the directory `start` to `p`. -/
def relative (p start : String) : String :=
  let there := normalParts p
  let here := normalParts start
  let n := commonLength here there
  let way := List.replicate (here.length - n) ".." ++ there.drop n
  if way.isEmpty then "." else ofParts way

end SourceChange.Path
