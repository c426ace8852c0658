import ImageTriage.Batch.Run

/-!
# Arguments

What the arguments of the program ask for. How they are read is a parameter: an `ArgumentReader`
answers what is asked for, or a text that is shown instead.
-/

namespace ImageTriage

/-- What the arguments ask for. -/
structure Arguments where
  files : List Path := []
  /-- The files given by option; they come before the others. -/
  flaggedFiles : List Path := []
  recursive : Bool := false
  /-- The words for categories. -/
  dump : List String := []
  hashes : Bool := false
  extractTo : Option Path := none
  packer : Bool := false
  malware : Bool := false
  rulesDirectory : Option Path := none
  settingsFile : Option Path := none
  verbosity : Nat := 0
  structuredLog : Bool := false
  deriving DecidableEq, Repr

namespace Arguments

/-- The files to look at, in order. -/
def inputs (a : Arguments) : List Path := a.flaggedFiles ++ a.files

/-- What a run does with each image. -/
def runOptions (a : Arguments) : RunOptions where
  categories := if a.dump = [] then none else some (.ofValues a.dump)
  hashes := a.hashes
  extractTo := a.extractTo
  packer := a.packer
  malware := a.malware

/-- The level of the log for a verbosity. -/
def logLevel : Nat → String
  | 0 => "warn"
  | 1 => "info"
  | 2 => "debug"
  | _ => "trace"

end Arguments

/-- A text that is shown instead of a run. -/
inductive Notice where
  /-- What is wrong with the arguments. -/
  | complaint (text : String)
  /-- A text that the arguments ask for, such as the version of the program. -/
  | answer (text : String)
  deriving DecidableEq, Repr

/-- A reading of the arguments, inferred wherever the program is run. -/
class ArgumentReader where
  /-- What the arguments ask for, when the environment names a directory of rules or none. -/
  read : Option String → List String → Except Notice Arguments
  /-- How the program is called. -/
  usage : String

end ImageTriage
