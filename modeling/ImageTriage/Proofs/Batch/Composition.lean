import ImageTriage.Proofs.Batch.Observed

/-!
# A batch and its single-target runs

The one thing that a run carries from one target to the next is the engine for kinds of files. It is
either not loaded yet or what the loader answers (`Fits`), so it cannot be told from the report on a
target which of the two it was. A batch is therefore put together from the runs on each of its
targets alone, `execute_eq_composition`: each target adds to either stream what it adds alone
(`exists_steps`), and the rest of the batch goes on as if it had come first.
-/

namespace ImageTriage.Batch

open Observed

/-- Whether something stands there that is not a directory. -/
def isFileStatus : Except String FileStatus → Bool
  | .ok (.file _) => true
  | _ => false

/-- Whether something stands at a path that is not a directory. -/
def isFile (files : FileTree) (path : Path) : Bool :=
  isFileStatus (({ files } : World).status path)

namespace Collaborators

/-- What a run on one target leaves, when it starts from empty streams. -/
def alone (c : Collaborators) (files : FileTree) (path : Path) : Observed :=
  (c.execute [path] { world := { files } }).2

/-- No view of an image fails because something could not be read or written. -/
def ShowsFromMemory (c : Collaborators) : Prop :=
  ∀ path target, c.parse path = .ok target → target.IsInMemory

/-- Whether a path is an image. -/
def accepts (c : Collaborators) (path : Path) : Bool := (c.parse path).isOk

/-- How many of the paths are no images. -/
def failures (c : Collaborators) (targets : List Path) : Nat := targets.countP (!c.accepts ·)

/-- Whether a path is no image, but a file of some other kind. -/
def isOther (c : Collaborators) (files : FileTree) (path : Path) : Bool :=
  !c.accepts path && isFile files path

/-- What stands between the report on a target and the targets that follow: after an image a line of
80 dashes and a blank line. -/
def between (c : Collaborators) (path : Path) (rest : List Path) : Bytes :=
  if c.accepts path ∧ rest ≠ [] then
    (String.ofList (List.replicate 80 '-') ++ "\n" ++ "\n").toUTF8
  else .empty

/-- The reports of the runs on each target alone, one after the other, and what stands between. -/
def joinedReports (c : Collaborators) (files : FileTree) : List Path → Bytes
  | [] => .empty
  | path :: rest =>
    (c.alone files path).world.out.written ++ c.between path rest ++ c.joinedReports files rest

/-- The diagnostics of the runs on each target alone, one after the other. -/
def joinedDiagnostics (c : Collaborators) (files : FileTree) : List Path → Bytes
  | [] => .empty
  | path :: rest => (c.alone files path).world.err.written ++ c.joinedDiagnostics files rest

end Collaborators

variable {files : FileTree}

/-! ## The engine for kinds of files -/

/-- Whether the engine for kinds of files was not looked for yet. -/
def isUntried {m : Type → Type} : Run.FileTypes m → Bool
  | .notLoaded => true
  | _ => false

namespace Collaborators

variable (c : Collaborators)

/-- What the loader makes of the engine for kinds of files. -/
def settled : Run.FileTypes (StateM Observed) :=
  match c.load .fileType c.rules.fileType with
  | .ok search => .loaded (engine search)
  | .error _ => .unavailable

/-- The engine for kinds of files was not looked for yet, or is what the loader makes of it. -/
def Fits (types : Run.FileTypes (StateM Observed)) : Prop := types = .notLoaded ∨ types = c.settled

theorem isUntried_settled : isUntried c.settled = false := by
  unfold settled
  split <;> rfl

/-- The call for the engine for kinds of files, in the case that it is made. -/
def fileTypeCall (made : Bool) : List (EngineKind × Path) :=
  if made then [(.fileType, c.rules.fileType)] else []

theorem fileTypeCall_append (untried first later : Bool) :
    c.fileTypeCall (untried && first) ++ c.fileTypeCall (untried && !first && later) =
      c.fileTypeCall (untried && (first || later)) := by
  cases untried <;> cases first <;> cases later <;> rfl

variable {c}
variable {types : Run.FileTypes (StateM Observed)}

theorem run_load (kind : EngineKind) (rules : Path) (o : Observed) :
    (c.run.load kind rules).run o =
      ((c.load kind rules).map engine, o.after { loaded := [(kind, rules)] }) := by
  simp only [Observed.after, World.wrote_nothing, List.append_nil]
  rfl

theorem does_ready (h : c.Fits types) :
    Does files (ExceptT.lift (types.ready c.run)) c.settled
      { loaded := c.fileTypeCall (isUntried types) } := by
  refine Does.lift fun o _ => ?_
  rcases h with rfl | rfl
  · rw [Run.FileTypes.ready, StateT.run_bind]
    have hload := run_load (c := c) .fileType c.rules.fileType o
    change (c.run.load .fileType (EngineKind.fileType.rulePath c.run.rules)).run o = _ at hload
    rw [hload]
    unfold settled
    cases c.load .fileType c.rules.fileType <;> rfl
  · rw [isUntried_settled]
    rw [show o.after { loaded := c.fileTypeCall false } = o from after_nothing o]
    unfold settled
    cases c.load .fileType c.rules.fileType <;> rfl

/-- Tells the kinds of a file, when there is an engine for that. -/
def tell (types : Run.FileTypes (StateM Observed)) (path : Path) :
    ExceptT Failure (StateM Observed) Unit :=
  match types with
  | .loaded engine => do
    let found ← liftM (engine path)
    Observed.host.say (Run.fileTypeText found)
  | _ => pure ()

theorem writes_tell_settled (c : Collaborators) (files : FileTree) (path : Path) :
    Writes files (tell c.settled path) := by
  unfold settled
  cases c.load .fileType c.rules.fileType with
  | ok search => exact (Writes.scan search path).bind fun _ => Writes.say _
  | error _ => exact Writes.pure ()

theorem identify_eq (c : Collaborators) (types : Run.FileTypes (StateM Observed)) (path : Path) :
    c.run.identify types path = do
      let status ← liftM (Observed.host.status path)
      if isFileStatus status then
        let types ← ExceptT.lift (types.ready c.run)
        tell types path
        return types
      else return types := by
  unfold Run.identify
  congr 1
  funext status
  rcases status with reason | _ | size
  · rfl
  · rfl
  · simp only [isFileStatus, if_true]
    refine bind_congr fun types => ?_
    cases types with
    | loaded engine => simp only [tell, bind_assoc]; rfl
    | _ => rfl

/-- What is told about a file of another kind does not depend on when its engine was loaded. -/
theorem exists_identify (c : Collaborators) (files : FileTree) (path : Path) :
    ∃ out err, ∀ types, c.Fits types →
      Does files (c.run.identify types path) (if isFile files path then c.settled else types)
        { out, err, loaded := c.fileTypeCall (isUntried types && isFile files path) } := by
  have hstatus := Does.status files path
  obtain ⟨a, out, err, htell⟩ := writes_tell_settled c files path
  by_cases hfile : isFile files path
  · refine ⟨out, err, fun types htypes => ?_⟩
    have hready : Does files (do
        let types ← ExceptT.lift (types.ready c.run)
        tell types path
        return types) c.settled { out, err, loaded := c.fileTypeCall (isUntried types) } := by
      refine ((does_ready htypes).bind (htell.bind (Does.pure c.settled))).congr ?_
      ext1 <;> simp
    rw [identify_eq, if_pos hfile]
    refine (hstatus.bind
      (g := { out, err, loaded := c.fileTypeCall (isUntried types) }) ?_).congr ?_
    · change Does files (if isFile files path then _ else _) _ _
      rw [if_pos hfile]
      exact hready
    · ext1 <;> simp [hfile]
  · refine ⟨.empty, .empty, fun types htypes => ?_⟩
    rw [identify_eq, if_neg hfile]
    refine (hstatus.bind (g := {}) ?_).congr ?_
    · change Does files (if isFile files path then _ else _) _ _
      rw [if_neg hfile]
      exact Does.pure types
    · ext1 <;> simp [hfile, fileTypeCall]

/-! ## Going through the targets -/

/-- The account of a run after some targets, when it was `report` before. -/
def tally (c : Collaborators) (report : RunReport) (targets : List Path) : RunReport where
  attempted := report.attempted + targets.length
  analyzed := report.analyzed + targets.countP c.accepts
  parseFailures := report.parseFailures + targets.countP (!c.accepts ·)

theorem tally_cons (c : Collaborators) (report : RunReport) (path : Path) (rest : List Path) :
    c.tally report (path :: rest) = c.tally (c.tally report [path]) rest := by
  simp only [tally, List.length_cons, List.length_nil, List.countP_cons, List.countP_nil]
  congr 1 <;> omega

/-- What the runs add that handle a target, the rest aside. -/
def stepEffect (c : Collaborators) (files : FileTree) (path : Path) (untried : Bool)
    (rest : List Path) (out err : Bytes) : Effect where
  out := out ++ c.between path rest
  err
  parsed := [path]
  loaded := c.fileTypeCall (untried && c.isOther files path)

/-- A run that has `types` handles the target with these texts, and goes on with `next`. -/
def Steps (c : Collaborators) (files : FileTree) (path : Path) (out err : Bytes)
    (types next : Run.FileTypes (StateM Observed)) : Prop :=
  ∀ rest report answer e,
    Does files (c.run.handle c.engines rest next (c.tally report [path])) answer e →
    Does files (c.run.handle c.engines (path :: rest) types report) answer
      (c.stepEffect files path (isUntried types) rest out err ++ e)

theorem exists_steps_of_error (files : FileTree) {path : Path} {failure : Failure}
    (h : c.parse path = .error failure) : ∃ out err, ∀ types, c.Fits types →
      Steps c files path out err types (if isFile files path then c.settled else types) := by
  have haccepts : c.accepts path = false := by rw [accepts, h]; rfl
  have hother : c.isOther files path = isFile files path := by rw [isOther, haccepts]; rfl
  have hparse := Does.parse c files path
  rw [h] at hparse
  obtain ⟨out, err, hidentify⟩ := exists_identify c files path
  refine ⟨out, failure.line.toUTF8 ++ (err ++ "\n".toUTF8), fun types htypes => ?_⟩
  intro rest report answer e hrest
  have htally : c.tally report [path] =
      { report with
        attempted := report.attempted + 1
        parseFailures := report.parseFailures + 1 } := by
    simp [tally, haccepts]
  rw [htally] at hrest
  refine (hparse.bind ((Does.say failure.line).bind ((hidentify types htypes).bind
    ((Does.say "\n").bind hrest)))).congr ?_
  ext1 <;> simp [stepEffect, between, haccepts, hother, ByteArray.append_assoc]

theorem exists_steps_of_ok (hextract : c.options.extractTo = none) (files : FileTree) {path : Path}
    {target : Target (StateM Observed)} (h : c.parse path = .ok target)
    (htarget : target.IsInMemory) : ∃ out err, ∀ types, Steps c files path out err types types := by
  have haccepts : c.accepts path = true := by rw [accepts, h]; rfl
  have hother : c.isOther files path = false := by rw [isOther, haccepts]; rfl
  have hparse := Does.parse c files path
  rw [h] at hparse
  obtain ⟨_, out, err, hanalyze⟩ := Writes.analyze c hextract files htarget
  refine ⟨out, err, fun types rest report answer e hrest => ?_⟩
  have htally : c.tally report [path] =
      { report with
        attempted := report.attempted + 1
        analyzed := report.analyzed + 1 } := by
    simp [tally, haccepts]
  rw [htally] at hrest
  cases rest with
  | nil =>
    refine (hparse.bind (hanalyze.bind hrest)).congr ?_
    ext1 <;> simp [stepEffect, between, hother, fileTypeCall]
  | cons second rest =>
    have hbetween : c.between path (second :: rest) = Run.separator.toUTF8 := by
      rw [between, if_pos ⟨haccepts, List.cons_ne_nil _ _⟩, String.append_assoc]
      rfl
    refine (hparse.bind (hanalyze.bind ((Does.print Run.separator).bind hrest))).congr ?_
    ext1 <;> simp [stepEffect, hbetween, hother, fileTypeCall, ByteArray.append_assoc]

/-- What a run does with a target is the same for all that it may carry from earlier ones. -/
theorem exists_steps (c : Collaborators) (hextract : c.options.extractTo = none)
    (hshows : c.ShowsFromMemory) (files : FileTree) (path : Path) :
    ∃ out err, ∀ types, c.Fits types →
      ∃ next, c.Fits next ∧ isUntried next = (isUntried types && !c.isOther files path) ∧
        Steps c files path out err types next := by
  match h : c.parse path with
  | .error failure =>
    obtain ⟨out, err, hsteps⟩ := exists_steps_of_error files h
    refine ⟨out, err, fun types htypes => ⟨_, ?_, ?_, hsteps types htypes⟩⟩
    · split
      · exact .inr rfl
      · exact htypes
    · have hother : c.isOther files path = isFile files path := by rw [isOther, accepts, h]; rfl
      rw [hother]
      split
      · rename_i hfile
        rw [isUntried_settled, hfile, Bool.not_true, Bool.and_false]
      · rename_i hfile
        simp [hfile]
  | .ok target =>
    obtain ⟨out, err, hsteps⟩ := exists_steps_of_ok hextract files h (hshows path target h)
    refine ⟨out, err, fun types htypes => ⟨types, htypes, ?_, hsteps types⟩⟩
    simp [isOther, accepts, h, Except.isOk, Except.toBool]

/-- A run of one target, started from empty streams, adds what its step adds. -/
theorem alone_of_steps {path : Path} {out err : Bytes} {next : Run.FileTypes (StateM Observed)}
    (h : Steps c files path out err .notLoaded next) :
    (c.alone files path).world.out.written = out ∧
      (c.alone files path).world.err.written = err := by
  have hrun := h [] {} _ {} (Does.pure _) { world := { files } } ⟨⟨rfl, rfl⟩, rfl⟩
  have halone : c.alone files path = Observed.after { world := { files } }
      (c.stepEffect files path true [] out err ++ {}) := congrArg Prod.snd hrun
  rw [halone]
  simp [Observed.after, World.wrote, stepEffect, between]

/-- What a run adds that handles the targets. -/
def batchEffect (c : Collaborators) (files : FileTree) (untried : Bool) (targets : List Path) :
    Effect where
  out := c.joinedReports files targets
  err := c.joinedDiagnostics files targets
  parsed := targets
  loaded := c.fileTypeCall (untried && targets.any (c.isOther files))

/-- Whatever a run carries from earlier targets, those to come add what they add alone. -/
theorem does_handle (c : Collaborators) (hextract : c.options.extractTo = none)
    (hshows : c.ShowsFromMemory) (files : FileTree) (targets : List Path)
    (types : Run.FileTypes (StateM Observed)) (htypes : c.Fits types)
    (report : RunReport) :
    Does files (c.run.handle c.engines targets types report) (c.tally report targets)
      (c.batchEffect files (isUntried types) targets) := by
  induction targets generalizing types report with
  | nil =>
    refine (Does.pure (c.tally report [])).congr ?_
    ext1 <;> simp [batchEffect, joinedReports, joinedDiagnostics, fileTypeCall]
  | cons path rest ih =>
    obtain ⟨out, err, hsteps⟩ := exists_steps c hextract hshows files path
    obtain ⟨next, hnext, huntried, hstep⟩ := hsteps types htypes
    -- the same step, with the engine not loaded yet, is the one of the run on `path` alone
    obtain ⟨_, _, _, hfirst⟩ := hsteps .notLoaded (.inl rfl)
    obtain ⟨rfl, rfl⟩ := alone_of_steps hfirst
    rw [tally_cons]
    refine (hstep rest report _ _ (ih next hnext _)).congr ?_
    rw [huntried]
    ext1
    · rfl
    · rfl
    · rfl
    · exact c.fileTypeCall_append _ _ _

/-- A batch is put together from the runs on each of its targets alone. -/
theorem execute_eq_composition (c : Collaborators) (hextract : c.options.extractTo = none)
    (hshows : c.ShowsFromMemory) (targets : List Path) (start : Observed)
    (hout : start.world.out.room = none)
    (herr : start.world.err.room = none) :
    ∃ final, c.execute targets start =
        (.ok { attempted := targets.length
               analyzed := targets.length - c.failures targets
               parseFailures := c.failures targets }, final) ∧
      final.world.out.written =
        start.world.out.written ++ c.joinedReports start.world.files targets ∧
      final.world.err.written =
        start.world.err.written ++ c.joinedDiagnostics start.world.files targets ∧
      final.parsed = start.parsed ++ targets ∧
      final.loaded = start.loaded ++
        if targets.any (c.isOther start.world.files) then [(.fileType, c.rules.fileType)]
        else [] := by
  have hrun :=
    does_handle c hextract hshows start.world.files targets .notLoaded (.inl rfl) {} start
    ⟨⟨hout, herr⟩, rfl⟩
  have htally : c.tally {} targets =
      { attempted := targets.length
        analyzed := targets.length - c.failures targets
        parseFailures := c.failures targets } := by
    have htotal := List.length_eq_countP_add_countP c.accepts (l := targets)
    simp only [Bool.not_eq_true, Bool.decide_eq_false] at htotal
    simp only [tally, failures, Nat.zero_add]
    congr 1
    omega
  rw [htally] at hrun
  exact ⟨_, hrun, rfl, rfl, rfl, rfl⟩

/-- All paths but one are images whose imports cannot be read, and no engine can be loaded. -/
def withOneText : Collaborators where
  parse path :=
    if path = "b.txt" then .error (.parse path .dosSignature)
    else .ok { path, render := fun _ => ⟨path, some .importTable⟩, extract := fun _ => pure 0 }
  load kind rules := .error (.engineLoad kind.name rules "no such file")
  rules := default
  options := {}
  packer := none
  malware := none

theorem showsFromMemory_withOneText : withOneText.ShowsFromMemory := by
  intro path target h
  simp only [withOneText] at h
  split at h
  · cases h
  · cases h
    exact fun view reason hio => nomatch hio

/-- A tree with a text where paths start. -/
def oneText : FileTree :=
  { root := .directory [("", .directory [("b.txt", .file .empty)])] }

/-- A text among images: the loader is asked once, and its failure shows nowhere. -/
theorem execute_eq_composition_text :
    withOneText.options.extractTo = none ∧ withOneText.ShowsFromMemory ∧
    ∃ final, withOneText.execute ["a.exe", "b.txt", "b.txt", "c.exe"]
        { world := { files := oneText } } =
        (.ok { attempted := 4, analyzed := 2, parseFailures := 2 }, final) ∧
      final.parsed = ["a.exe", "b.txt", "b.txt", "c.exe"] ∧
      final.loaded = [(.fileType, "resources/magic.yara")] := by
  obtain ⟨final, hrun, -, -, hparsed, hloaded⟩ := execute_eq_composition withOneText rfl
    showsFromMemory_withOneText ["a.exe", "b.txt", "b.txt", "c.exe"]
    { world := { files := oneText } }
    rfl rfl
  refine ⟨rfl, showsFromMemory_withOneText, final, hrun, hparsed, hloaded.trans ?_⟩
  decide

end Collaborators

end ImageTriage.Batch
