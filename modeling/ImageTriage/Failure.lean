import ImageTriage.Fault
import ImageTriage.Files.Path

/-!
# Failures of a run

A run stops before it begins when it was asked for wrongly, and stops in the middle when its report
cannot be written. What goes wrong with one target is told and does not stop it. `Failure.message`
is the wording, `Failure.exitCode` the status a run ends with.
-/

namespace ImageTriage

/-- What can go wrong in a run. -/
inductive Failure where
  /-- The command line asks for nothing that can be done. -/
  | argument (reason : String)
  /-- A target does not exist. -/
  | missingInput (path : Path)
  | configuration (reason : String)
  /-- The rules of an engine cannot be used. -/
  | engineLoad (engine : String) (path : Path) (reason : String)
  /-- A target is no image. -/
  | parse (path : Path) (fault : Fault)
  /-- A table of an image cannot be read. -/
  | malformed (fault : Fault)
  | extraction (directory : Path) (reason : String)
  /-- The report cannot be written. -/
  | io (reason : String)
  deriving DecidableEq, Repr

namespace Failure

/-- The wording of a failure. -/
def message : Failure → String
  | argument reason => "Could not parse command line (" ++ reason ++ ")"
  | missingInput path => path ++ " not found"
  | configuration reason => "Invalid configuration: " ++ reason
  | engineLoad engine path reason =>
    "Could not load " ++ engine ++ " signatures from " ++ path ++ " (" ++ reason ++ ")"
  | parse path fault => "Could not parse " ++ path ++ " (" ++ fault.message ++ ")"
  | malformed fault => fault.message
  | extraction directory reason =>
    "Could not extract resources to " ++ directory ++ " (" ++ reason ++ ")"
  | io reason => "I/O error: " ++ reason

/-- The import table of an image cannot be read. -/
def importTable : Failure := malformed .importTable

/-- Whether a failure ends a run before its first target. -/
def isFatal : Failure → Bool
  | argument _ | missingInput _ | configuration _ | engineLoad .. => true
  | parse .. | malformed _ | extraction .. | io _ => false

/-- The exit status after a failure. -/
def exitCode : Failure → Nat
  | argument _ | missingInput _ | configuration _ => 2
  | engineLoad .. | io _ => 1
  | parse .. | malformed _ | extraction .. => 0

/-- The line that tells of a failure. -/
def line (f : Failure) : String := "[!] Error: " ++ f.message ++ ".\n"

/-- A fatal failure ends the run with an error. -/
theorem exitCode_ne_zero_of_isFatal {f : Failure} (h : f.isFatal) : f.exitCode ≠ 0 := by
  cases f <;> simp_all [isFatal, exitCode]

end Failure

end ImageTriage
