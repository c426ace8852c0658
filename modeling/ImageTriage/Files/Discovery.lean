import ImageTriage.Batch.Host

/-!
# Finding targets

The targets of a run are the paths that were named, or, when directories are to be entered, the
files directly inside the directories that were named. All paths that were named must be there.
-/

namespace ImageTriage.Discovery

variable {m : Type → Type} [Monad m]

/-- Checks that every path is there; the first that is not is the failure. -/
def validate (host : Host m) : List Path → ExceptT Failure m Unit
  | [] => return ()
  | path :: rest => do
    if ← host.isThere path then
      validate host rest
    else
      throw (.missingInput path)

/-- The path of an entry of a directory that is no directory itself. An entry of which nothing can
be known is passed over. -/
def fileInside? (directory : Path) : Except String (String × Bool) → Option Path
  | .ok (name, isDirectory) => if isDirectory then none else some (Path.join directory name)
  | .error _ => none

/-- The files directly inside a directory. -/
def filesInside (host : Host m) (directory : Path) : m (List Path) := do
  let inside ← host.children directory
  return inside.filterMap (fileInside? directory)

/-- The paths with every directory replaced by the files directly inside it. -/
def enter (host : Host m) : List Path → m (List Path)
  | [] => return []
  | path :: rest => do
    let first ← if ← host.isDirectory path then filesInside host path else pure [path]
    return first ++ (← enter host rest)

/-- The targets that the paths stand for. -/
def targets (host : Host m) (recursive : Bool) (paths : List Path) : m (List Path) :=
  if recursive then enter host paths else return paths

end ImageTriage.Discovery
