import ImageTriage.Batch.Target

/-!
# Runs

A run goes through its targets in order and reports on each. `Run.prepare` loads the engines that
are asked for; if one cannot be loaded there is no run. `Run.execute` then handles the targets:

* A path that is no image is told on the diagnostics, together with what kind of file it is. The
  engine for that is loaded at the first such path, and once only.
* Of an image the wanted categories are shown, or else the summary. A view that fails is told
  on the diagnostics and the next one follows. Then resources are saved, digests shown and
  signatures listed, as asked for. A line separates the report from what follows.

Only a failure to read or write, as of a stream that is full, ends a run early.
-/

namespace ImageTriage

/-- What a run does with each image. -/
structure RunOptions where
  /-- The categories to show; the summary when there are none given. -/
  categories : Option CategorySet := none
  hashes : Bool := false
  /-- Where to save resources. -/
  extractTo : Option Path := none
  /-- Whether to look for packers and compilers. -/
  packer : Bool := false
  /-- Whether to look for malware. -/
  malware : Bool := false

/-- How many targets a run saw. -/
structure RunReport where
  attempted : Nat := 0
  analyzed : Nat := 0
  parseFailures : Nat := 0
  deriving DecidableEq, Repr

/-- A loaded engine: the matches of its rules on a file, in order. -/
abbrev Engine (m : Type → Type) := Path → m (List SignatureMatch)

/-- The parts of a run. -/
structure Run (m : Type → Type) where
  host : Host m
  parse : Path → m (Except Failure (Target m))
  load : EngineKind → Path → m (Except Failure (Engine m))
  rules : RulePaths
  options : RunOptions

/-- The engines that were asked for. -/
structure Engines (m : Type → Type) where
  packer : Option (Engine m)
  malware : Option (Engine m)

namespace Run

variable {m : Type → Type} [Monad m]

/-- Loads an engine if it is asked for. -/
def loadIf (run : Run m) (wanted : Bool) (kind : EngineKind) :
    ExceptT Failure m (Option (Engine m)) := do
  if wanted then
    return some (← ExceptT.mk (run.load kind (kind.rulePath run.rules)))
  else
    return none

/-- Loads the engines that are asked for. -/
def prepare (run : Run m) : ExceptT Failure m (Engines m) := do
  let packer ← run.loadIf run.options.packer .packer
  let malware ← run.loadIf run.options.malware .malware
  return { packer, malware }

/-! ## Reporting on an image -/

/-- The line that tells of the failure of a view. -/
def failureLine (doing : String) (path : Path) (failure : Failure) : String :=
  "[!] Error: Could not " ++ doing ++ " " ++ path ++ " (" ++ failure.message ++ ").\n"

/-- What a view does, in the words of the diagnostics. -/
def doing : View → String
  | .summary => "summarize"
  | .category c _ => "dump " ++ c.token ++ " of"
  | .hashes => "hash"

/-- Shows a view, and tells of its failure. Answers whether there was none. A failure to read or
write ends the run. -/
def showView (host : Host m) (target : Target m) (view : View) : ExceptT Failure m Bool := do
  let rendering := target.render view
  host.print rendering.text
  match rendering.failure? with
  | none => return true
  | some (.io reason) => throw (.io reason)
  | some failure =>
    host.say (failureLine (doing view) target.path failure)
    return false

/-- Shows categories, and answers how many failed. -/
def showCategories (host : Host m) (target : Target m) (withHashes : Bool) :
    List Category → ExceptT Failure m Nat
  | [] => return 0
  | c :: rest => do
    let whole ← showView host target (.category c withHashes)
    let failed ← showCategories host target withHashes rest
    return (if whole then 0 else 1) + failed

/-- The list of the matches of an engine; nothing when there are none. -/
def matchesText (kind : EngineKind) (found : List SignatureMatch) : String :=
  if found = [] then ""
  else
    Report.unlines
      (kind.heading :: found.map (fun s => "\t" ++ s.fieldOrRule kind.field) ++ [""])

/-- Lists the matches of an engine that was asked for. -/
def listMatches (run : Run m) (kind : EngineKind) (engine? : Option (Engine m)) (path : Path) :
    ExceptT Failure m Unit := do
  match engine? with
  | none => return ()
  | some engine =>
    let found ← engine path
    run.host.print (matchesText kind found)

/-- Saves the resources of a target; a failure is told. -/
def extract (run : Run m) (target : Target m) (directory : Path) : ExceptT Failure m Unit := do
  match ← ExceptT.lift (target.extract directory).run with
  | .ok _ => return ()
  | .error failure => run.host.say failure.line

/-- Does with an image all that is asked for. -/
def analyze (run : Run m) (engines : Engines m) (target : Target m) : ExceptT Failure m Unit := do
  match run.options.categories with
  | some set => discard (showCategories run.host target run.options.hashes set.toList)
  | none => discard (showView run.host target .summary)
  match run.options.extractTo with
  | some directory => run.extract target directory
  | none => pure ()
  if run.options.hashes then
    discard (showView run.host target .hashes)
  run.listMatches .packer engines.packer target.path
  run.listMatches .malware engines.malware target.path

/-! ## Going through the targets -/

/-- The engine for kinds of files: not looked for yet, or looked for and there or not. -/
inductive FileTypes (m : Type → Type) where
  | notLoaded
  | unavailable
  | loaded (engine : Engine m)

/-- The engine for kinds of files, loaded if that was not tried before. -/
def FileTypes.ready (run : Run m) : FileTypes m → m (FileTypes m)
  | .notLoaded => do
    match ← run.load .fileType (EngineKind.fileType.rulePath run.rules) with
    | .ok engine => return .loaded engine
    | .error _ => return .unavailable
  | types => return types

/-- The line that tells the kinds of a file; nothing when none is known. -/
def fileTypeText (found : List SignatureMatch) : String :=
  if found = [] then ""
  else
    EngineKind.fileType.heading ++ " "
      ++ String.intercalate ", " (found.map (·.fieldOrRule EngineKind.fileType.field)) ++ "\n"

/-- Tells what kind of file is at a path. -/
def identify (run : Run m) (types : FileTypes m) (path : Path) :
    ExceptT Failure m (FileTypes m) := do
  match ← run.host.status path with
  | .ok (.file _) =>
    let types ← ExceptT.lift (types.ready run)
    match types with
    | .loaded engine =>
      let found ← engine path
      run.host.say (fileTypeText found)
    | _ => pure ()
    return types
  | _ => return types

/-- The line between the report on an image and what follows. -/
def separator : String := String.ofList (List.replicate 80 '-') ++ "\n\n"

/-- Handles the targets in order, counting from `report`. -/
def handle (run : Run m) (engines : Engines m) :
    List Path → FileTypes m → RunReport → ExceptT Failure m RunReport
  | [], _, report => return report
  | path :: rest, types, report => do
    match ← ExceptT.lift (run.parse path) with
    | .error failure =>
      run.host.say failure.line
      let types ← run.identify types path
      run.host.say "\n"
      handle run engines rest types
        { report with
          attempted := report.attempted + 1
          parseFailures := report.parseFailures + 1 }
    | .ok target =>
      run.analyze engines target
      if !rest.isEmpty then
        run.host.print separator
      handle run engines rest types
        { report with attempted := report.attempted + 1, analyzed := report.analyzed + 1 }

/-- Handles the targets in order. -/
def execute (run : Run m) (engines : Engines m) (targets : List Path) :
    ExceptT Failure m RunReport :=
  run.handle engines targets .notLoaded {}

end Run

end ImageTriage
