import ImageTriage.CommandLine.Program

/-!
# The program on a machine

The host that works on the files and the streams of the machine, and the entry point. Everything
that is decided is decided elsewhere.
-/

namespace ImageTriage.LocalHost

/-- The wording of a failed operation. -/
def reason : IO.Error → String
  | .noFileOrDirectory .. => FileFault.notFound.message
  | .inappropriateType _ 20 _ => FileFault.notDirectory.message
  | .inappropriateType _ 21 _ => FileFault.isDirectory.message
  | .alreadyExists .. => FileFault.alreadyExists.message
  | failure => toString failure

/-- Does an operation, and gives the reason when it fails. -/
def attempt {α : Type} (operation : IO α) : IO (Except String α) := do
  match ← operation.toBaseIO with
  | .ok a => return .ok a
  | .error failure => return .error (reason failure)

/-- What is known of a path without reading it. -/
def status (path : Path) : IO FileStatus := do
  let found ← (← IO.FS.realPath path).metadata
  match found.type with
  | .dir => return .directory
  | _ => return .file found.byteSize.toNat

/-- An entry of a directory, with whether it is a directory itself. -/
def child (entry : IO.FS.DirEntry) : IO (String × Bool) := do
  let found ← entry.path.metadata
  return (entry.fileName, found.type == .dir)

/-- What is in a directory, in the order of the names. -/
def children (path : Path) : IO (List (Except String (String × Bool))) := do
  let entries ← (← IO.FS.realPath path).readDir
  let inOrder := entries.toList.mergeSort fun a b => a.fileName ≤ b.fileName
  inOrder.mapM fun entry => attempt (child entry)

/-- Writes a text and lets it through. -/
def write (stream : IO.FS.Stream) (text : String) : IO Unit := do
  stream.putStr text
  stream.flush

/-- The host that is the machine. -/
def host : Host IO where
  status path := attempt (status path)
  content path := attempt (IO.FS.readBinFile path)
  children path := do
    match ← attempt (children path) with
    | .ok found => return found
    | .error reason => return [.error reason]
  createDirectory path :=
    if path = "" then return .ok () else attempt (IO.FS.createDirAll path)
  writeFile path content := attempt (IO.FS.writeBinFile path content)
  writeOut text := do attempt (write (← IO.getStdout) text)
  writeErr text := do attempt (write (← IO.getStderr) text)

/-- There is no compiler for rules in this program. -/
def noRules : RuleCompiler := fun _ => .error "this program has no compiler for rules"

end ImageTriage.LocalHost

/-- Runs the program. -/
def main (arguments : List String) : IO UInt32 := do
  let environment ← IO.getEnv "PESCAN_RULES_DIR"
  let status ← ImageTriage.Program.run ImageTriage.LocalHost.host ImageTriage.LocalHost.noRules
    environment arguments
  return UInt32.ofNat status
