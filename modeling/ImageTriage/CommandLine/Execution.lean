import ImageTriage.Batch.RuleFile
import ImageTriage.CommandLine.Arguments
import ImageTriage.Files.Discovery
import ImageTriage.Settings.Basic

/-!
# The program

What the arguments ask for is checked in a fixed order before the first target is looked at: there
must be a target, every target must be there, the settings must be readable, and the engines that
are asked for must load. Then the targets are handled.

How arguments are read, what settings files mean, how rules are compiled and how kinds of content
are told are parameters.
-/

namespace ImageTriage.Program

variable {m : Type → Type} [Monad m]

/-- The settings that the arguments lead to. -/
def settings [SettingsDecoder] (host : Host m) (a : Arguments) : ExceptT Failure m Settings := do
  let s ← match a.settingsFile with
    | some path => Settings.load host path
    | none => pure {}
  match a.rulesDirectory with
  | some directory => return s.withRules directory
  | none => return s

/-- The run that the arguments and the settings ask for. -/
def runOf [Sniffer] (host : Host m) (compile : RuleCompiler) (a : Arguments) (s : Settings) :
    Run m where
  host
  parse := Target.ofImageFile host s.reading s.limits
  load := RuleCompiler.load host compile s.reading
  rules := s.rules
  options := a.runOptions

/-- Does what the arguments ask for. -/
def execute [Sniffer] [SettingsDecoder] (host : Host m) (compile : RuleCompiler) (a : Arguments) :
    ExceptT Failure m RunReport := do
  if a.inputs.isEmpty then
    throw (.argument "no input files specified")
  Discovery.validate host a.inputs
  let s ← settings host a
  let run := runOf host compile a s
  let engines ← run.prepare
  let targets ← ExceptT.lift (Discovery.targets host a.recursive a.inputs)
  run.execute engines targets

/-- What is said of a failure. -/
def failureText [ArgumentReader] (failure : Failure) : String :=
  failure.line ++ match failure with
    | .argument _ => ArgumentReader.usage
    | _ => ""

/-- The status of a program that could not tell its failure. -/
def untoldStatus : Nat := 101

/-- Runs the program and answers its exit status. A notice that cannot be written is let go. -/
def run [Sniffer] [SettingsDecoder] [ArgumentReader] (host : Host m) (compile : RuleCompiler)
    (environment : Option String) (arguments : List String) : m Nat := do
  match ArgumentReader.read environment arguments with
  | .error (.answer text) =>
    discard (host.writeOut text)
    return 0
  | .error (.complaint text) =>
    discard (host.writeErr text)
    return 2
  | .ok a =>
    match ← (execute host compile a).run with
    | .ok _ => return 0
    | .error failure =>
      match ← host.writeErr (failureText failure) with
      | .ok () => return failure.exitCode
      | .error _ => return untoldStatus

end ImageTriage.Program
