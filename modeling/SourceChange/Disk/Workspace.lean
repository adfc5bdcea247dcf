import SourceChange.Disk.Basic
import SourceChange.Text.Basic
import SourceChange.Text.Quoted

/-!
Paths in a workspace: relative ones that lead to a place below its root.
-/

namespace SourceChange.Disk

/-- Why a path is not one in a workspace. -/
inductive WorkspaceFault where
  | emptyPath
  | absolutePath (path : String)
  | missingRoot (root : String)
  | rootNotDirectory (root : String)
  | outside (path root : String)
  /-- A link leads back to itself, and the system does not find what it leads to either. -/
  | circular (path : String)
  deriving DecidableEq, Repr

/-- The wording of a fault. -/
def WorkspaceFault.message : WorkspaceFault → String
  | emptyPath => "path cannot be empty or whitespace-only"
  | absolutePath path => "Path '" ++ path ++ "' must be relative to the workspace"
  | missingRoot root => "workspace_root does not exist: " ++ root
  | rootNotDirectory root => "workspace_root must be a directory: " ++ root
  | outside path root => "Path '" ++ path ++ "' resolves outside workspace_root: " ++ root
  | circular path => "Symlink loop from " ++ Text.quote path

/-- Refuses a root that is no directory. -/
def checkRoot (d : Disk) (root : String) : Except WorkspaceFault Unit :=
  if !d.isPresent root then .error (.missingRoot (Path.tidy root))
  else if !d.isDirectory root then .error (.rootNotDirectory (Path.tidy root))
  else .ok ()

/-- The place that a way leads to, unless the system goes round in a circle there. -/
def settle (d : Disk) : Resolution → Except WorkspaceFault Location
  | .reached loc => .ok loc
  | .circular loc => if d.isEndless maxHops [] loc then .error (.circular (pathOf loc)) else .ok loc

/-- The place that a path leads to once its links are followed, unless the system goes round in a circle. -/
def settledPlace (d : Disk) (p : String) : Except WorkspaceFault Location :=
  d.settle (d.resolution (origin p d.current) (Path.steps p))

/-- The place of a path in a workspace, which has to lie below the root once all links are followed. -/
def resolveIn (d : Disk) (root path : String) : Except WorkspaceFault Location :=
  if Text.isBlankText path then .error .emptyPath
  else if Path.isAbsolute path then .error (.absolutePath path)
  else do
    let base ← d.settledPlace root
    let loc ← d.settle (d.resolution base (Path.steps path))
    if base.isPrefixOf loc then .ok loc else .error (.outside path (Path.tidy root))

/-- The place of a path in a workspace whose root is checked first. -/
def resolveChecked (d : Disk) (root path : String) : Except WorkspaceFault Location := do
  if Text.isBlankText path then throw .emptyPath
  if Path.isAbsolute path then throw (.absolutePath path)
  d.checkRoot root
  d.resolveIn root path

end SourceChange.Disk
