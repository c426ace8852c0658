import Mathlib.Data.List.Forall2
import ImageTriage.Proofs.Batch.Parts
import ImageTriage.Proofs.CommandLine.Calls

/-!
# What a program does with its targets

As long as the streams take what is written, a program handles its targets one after the other, and
no target ends it. Each of them is parsed, and until the next one all operations on files are for
this target (`Attempts`).

The parts of a run are followed by what they may do (`Asks`, `Uses`); what a run does with one
target (`Uses.finish`) carries over to all of them by induction (`exists_run_handle`).
-/

namespace ImageTriage.Program

open Traced

variable {σ α β : Type} {fs : FileSystem σ} {allowed : FileCall → Prop}

/-! ## Steps that do what is allowed -/

/-- While the streams are open, the step gives one of these answers, leaves the streams open, and
does no operations on files but those that are allowed. -/
def Asks (allowed : FileCall → Prop) (answers : α → Prop) (y : StateM (Traced σ) α) : Prop :=
  ∀ t : Traced σ, t.IsOpen → ∃ a t' calls, y.run t = (a, t') ∧ answers a ∧ t'.IsOpen ∧
    t'.calls = t.calls ++ calls ∧ ∀ call ∈ calls, allowed call

namespace Asks

variable {answers : α → Prop} {answers' : β → Prop} {y : StateM (Traced σ) α}
  {f : α → StateM (Traced σ) β}

theorem pure {a : α} (ha : answers a) :
    Asks allowed answers (Pure.pure a : StateM (Traced σ) α) := fun t ht =>
  ⟨a, t, [], rfl, ha, ht, t.calls.append_nil.symm, List.forall_mem_nil _⟩

theorem bind (hy : Asks allowed answers y) (hf : ∀ a, answers a → Asks allowed answers' (f a)) :
    Asks allowed answers' (y >>= f) := by
  intro t ht
  obtain ⟨a, t', calls, hrun, ha, ht', hcalls, hallowed⟩ := hy t ht
  obtain ⟨b, t'', calls', hrun', hb, ht'', hcalls', hallowed'⟩ := hf a ha t' ht'
  refine ⟨b, t'', calls ++ calls', (run_step hrun).trans hrun', hb, ht'', ?_,
    List.forall_mem_append.2 ⟨hallowed, hallowed'⟩⟩
  rw [hcalls', hcalls, List.append_assoc]

/-- A step that fails ends what comes behind it, which is an answer as well. -/
theorem run_bind {x : ExceptT Failure (StateM (Traced σ)) α}
    {f : α → ExceptT Failure (StateM (Traced σ)) β} (hx : Asks allowed (fun _ => True) x.run)
    (hf : ∀ a, Asks allowed (fun _ => True) (f a).run) :
    Asks allowed (fun _ => True) (x >>= f).run := by
  rw [ExceptT.run_bind]
  refine hx.bind fun answer _ => ?_
  cases answer with
  | ok a => exact hf a
  | error e => exact pure trivial

theorem lift (hy : Asks allowed (fun _ => True) y) :
    Asks allowed (fun _ => True) (liftM y : ExceptT Failure (StateM (Traced σ)) α).run := by
  intro t ht
  obtain ⟨a, t', calls, hrun, -, hrest⟩ := hy t ht
  exact ⟨.ok a, t', calls, run_lift_eq hrun, trivial, hrest⟩

/-- A step that only reads. -/
theorem of_after (h : ∀ t, ∃ a calls, y.run t = (a, t.after calls) ∧ answers a ∧
    ∀ call ∈ calls, allowed call) : Asks allowed answers y := by
  intro t ht
  obtain ⟨a, calls, hrun, ha, hallowed⟩ := h t
  exact ⟨a, t.after calls, calls, hrun, ha, ht, rfl, hallowed⟩

theorem status {path : Path} (h : allowed (.status path)) :
    Asks allowed (fun _ => True) ((host fs).status path) :=
  of_after fun _ => ⟨_, [.status path], rfl, trivial, List.forall_mem_singleton.2 h⟩

theorem createDirectory {path : Path} (h : allowed (.createDirectory path)) :
    Asks allowed (fun _ => True) ((host fs).createDirectory path) := fun _ ht =>
  ⟨_, _, [.createDirectory path], rfl, trivial, ⟨ht.out_open, ht.err_open⟩, rfl,
    List.forall_mem_singleton.2 h⟩

theorem writeFile {path : Path} {content : Bytes} (h : allowed (.writeFile path)) :
    Asks allowed (fun _ => True) ((host fs).writeFile path content) := fun _ ht =>
  ⟨_, _, [.writeFile path], rfl, trivial, ⟨ht.out_open, ht.err_open⟩, rfl,
    List.forall_mem_singleton.2 h⟩

end Asks

/-- While the streams are open, the part of a run ends well, with one of these answers, leaves the
streams open, and does no operations on files but those that are allowed. -/
def Uses (allowed : FileCall → Prop) (answers : α → Prop)
    (x : ExceptT Failure (StateM (Traced σ)) α) : Prop :=
  Asks allowed (fun answer => ∃ a, answer = .ok a ∧ answers a) x.run

namespace Uses

variable {answers : α → Prop} {answers' : β → Prop} {x : ExceptT Failure (StateM (Traced σ)) α}
  {f : α → ExceptT Failure (StateM (Traced σ)) β}

theorem pure {a : α} (ha : answers a) :
    Uses allowed answers (Pure.pure a : ExceptT Failure (StateM (Traced σ)) α) :=
  Asks.pure ⟨a, rfl, ha⟩

theorem bind (hx : Uses allowed answers x) (hf : ∀ a, answers a → Uses allowed answers' (f a)) :
    Uses allowed answers' (x >>= f) := by
  rw [Uses, ExceptT.run_bind]
  refine Asks.bind hx fun answer hanswer => ?_
  obtain ⟨a, rfl, ha⟩ := hanswer
  exact hf a ha

theorem lift {y : StateM (Traced σ) α} (hy : Asks allowed answers y) :
    Uses allowed answers (liftM y : ExceptT Failure (StateM (Traced σ)) α) := by
  intro t ht
  obtain ⟨a, t', calls, hrun, ha, hrest⟩ := hy t ht
  exact ⟨.ok a, t', calls, run_lift_eq hrun, ⟨a, rfl, ha⟩, hrest⟩

theorem print (text : String) : Uses allowed (fun _ => True) ((host fs).print text) := by
  intro t ht
  have hwrite : ((host fs).writeOut text).run t =
      (.ok (), { t with out.written := t.out.written ++ text.toUTF8 }) := by
    change ((t.out.write text).1, { t with out := (t.out.write text).2 }) = _
    rw [Stream.write_of_open ht.out_open]
  exact ⟨.ok (), _, [], Host.run_print hwrite, ⟨(), rfl, trivial⟩, ⟨ht.out_open, ht.err_open⟩,
    t.calls.append_nil.symm, List.forall_mem_nil _⟩

theorem say (text : String) : Uses allowed (fun _ => True) ((host fs).say text) := by
  intro t ht
  have hwrite : ((host fs).writeErr text).run t =
      (.ok (), { t with err.written := t.err.written ++ text.toUTF8 }) := by
    change ((t.err.write text).1, { t with err := (t.err.write text).2 }) = _
    rw [Stream.write_of_open ht.err_open]
  exact ⟨.ok (), _, [], Host.run_say hwrite, ⟨(), rfl, trivial⟩, ⟨ht.out_open, ht.err_open⟩,
    t.calls.append_nil.symm, List.forall_mem_nil _⟩

theorem isKept (allowed : FileCall → Prop) :
    Run.IsKept (host fs) fun _ x => Uses allowed (fun _ => True) x where
  pure _ := pure trivial
  bind hx hf := hx.bind fun a _ => hf a
  print := print
  say := say

end Uses

/-! ## Reading a file -/

variable {t : Traced σ} {reading : ReadLimits}

/-- A file is looked at before it is read, and perhaps not read then. -/
theorem exists_run_readBounded (reading : ReadLimits) (path : Path) (t : Traced σ) :
    ∃ answer calls, ((host fs).readBounded reading path).run.run t =
      (answer, t.after (.status path :: calls)) ∧ ∀ call ∈ calls, call = .content path := by
  have hsize : ∃ answer, ((host fs).checkedSize reading path).run.run t =
      (answer, t.after [.status path]) := by
    have hrun : (ExceptT.mk ((host fs).status path)).run.run t =
        (fs.status t.files path, t.after [.status path]) := rfl
    rw [Host.checkedSize, ExceptT.run_bind, run_step hrun]
    rcases fs.status t.files path with reason | _ | size
    · exact ⟨_, rfl⟩
    · exact ⟨_, rfl⟩
    · dsimp only
      cases hcheck : reading.checkSize size with
      | ok => exact ⟨.ok size, rfl⟩
      | error reason => exact ⟨.error reason, rfl⟩
  obtain ⟨answer, hsize⟩ := hsize
  rw [Host.readBounded, ExceptT.run_bind, run_step hsize]
  cases answer with
  | error reason => exact ⟨.error reason, [], rfl, List.forall_mem_nil _⟩
  | ok size =>
    have hrun := run_content (t := t.after [.status path]) fs path
    rw [after_after] at hrun
    have hcontent : (ExceptT.mk ((host fs).content path)).run.run (t.after [.status path]) =
        (fs.content t.files path, t.after [.status path, .content path]) := hrun
    dsimp only
    rw [ExceptT.run_bind, run_step hcontent]
    have hread : ∀ call ∈ [FileCall.content path], call = .content path :=
      List.forall_mem_singleton.2 rfl
    cases fs.content t.files path <;> exact ⟨_, [.content path], rfl, hread⟩

/-- A target that is an image is that image's target. -/
theorem exists_run_ofImageFile [Sniffer] (reading : ReadLimits) (limits : Limits) (path : Path)
    (t : Traced σ) :
    ∃ answer calls, (Target.ofImageFile (host fs) reading limits path).run t =
        (answer, t.after (.status path :: calls)) ∧ (∀ call ∈ calls, call = .content path) ∧
      ∀ target, answer = .ok target → ∃ image, target = Target.ofImage (host fs) path image := by
  obtain ⟨answer, calls, hrun, hcalls⟩ := exists_run_readBounded reading path t
  rw [Target.ofImageFile, run_step hrun]
  cases answer with
  | error reason => exact ⟨_, calls, rfl, hcalls, fun target h => nomatch h⟩
  | ok data =>
    exact ⟨_, calls, rfl, hcalls, fun target htarget => Target.eq_ofImage_of_ofBytes htarget⟩

/-! ## What may be done for a target -/

/-- The operations on files that a run may do for a target: it may look at the target and read it,
read the rules for kinds of files, and save resources. -/
def IsFor (run : Run (StateM (Traced σ))) (path : Path) : FileCall → Prop
  | .status p => p = path
  | .content p => p = path ∨ p = run.rules.fileType
  | .children _ => False
  | .createDirectory p => run.options.extractTo = some p
  | .writeFile p => ∃ directory name, run.options.extractTo = some directory ∧
      p = Path.join directory name

/-- Between the two worlds the targets were attempted, one after the other: each was parsed, and all
operations on files from there to the next target were for this one. -/
inductive Attempts (run : Run (StateM (Traced σ))) : Traced σ → List Path → Traced σ → Prop where
  | nil (t : Traced σ) : Attempts run t [] t
  | cons {path : Path} {rest : List Path} {t parsed next t' : Traced σ}
      {answer : Except Failure (Target (StateM (Traced σ)))} {calls : List FileCall} :
      (run.parse path).run t = (answer, parsed) → next.calls = parsed.calls ++ calls →
      (∀ call ∈ calls, IsFor run path call) → Attempts run next rest t' →
      Attempts run t (path :: rest) t'

/-- An engine, if there is one, is that of a search in a file's content. -/
def IsSearch (fs : FileSystem σ) (reading : ReadLimits)
    (engine? : Option (Engine (StateM (Traced σ)))) : Prop :=
  ∀ engine ∈ engine?, ∃ search, engine = RuleCompiler.engine (host fs) reading search

theorem isSearch_none : IsSearch fs reading none := fun _ hengine => nomatch hengine

theorem isSearch_engine (search : Bytes → List SignatureMatch) :
    IsSearch fs reading (some (RuleCompiler.engine (host fs) reading search)) := by
  intro engine hengine
  exact ⟨search, (Option.some.inj hengine).symm⟩

/-- The engines of a run search in the content of files. -/
structure AreSearches (fs : FileSystem σ) (reading : ReadLimits)
    (engines : Engines (StateM (Traced σ))) : Prop where
  packer : IsSearch fs reading engines.packer
  malware : IsSearch fs reading engines.malware

/-- The engine for kinds of files, if it is loaded. -/
def loaded? : Run.FileTypes (StateM (Traced σ)) → Option (Engine (StateM (Traced σ)))
  | .loaded engine => some engine
  | _ => none

section

variable {run : Run (StateM (Traced σ))} {path : Path}

theorem Asks.scan (search : Bytes → List SignatureMatch) (hstatus : allowed (.status path))
    (hcontent : allowed (.content path)) :
    Asks allowed (fun _ => True) (RuleCompiler.engine (host fs) reading search path) := by
  refine of_after fun t => ?_
  obtain ⟨answer, calls, hrun, hcalls⟩ := exists_run_readBounded reading path t
  have hallowed : ∀ call ∈ FileCall.status path :: calls, allowed call :=
    List.forall_mem_cons.2 ⟨hstatus, fun call hcall => hcalls call hcall ▸ hcontent⟩
  rw [RuleCompiler.engine, run_step hrun]
  cases answer <;> exact ⟨_, _, rfl, trivial, hallowed⟩

theorem Asks.scan_of_isSearch {engine? : Option (Engine (StateM (Traced σ)))}
    (h : IsSearch fs reading engine?) {engine : Engine (StateM (Traced σ))}
    (hengine : engine ∈ engine?)
    (path : Path) : Asks (IsFor run path) (fun _ => True) (engine path) := by
  obtain ⟨search, rfl⟩ := h engine hengine
  exact scan search rfl (.inl rfl)

/-! ## Saving resources -/

theorem Asks.saveAll [Sniffer] {directory : Path}
    (hdirectory : run.options.extractTo = some directory)
    (file : Bytes) (saved : Nat) (rs : List Resource) :
    Asks (IsFor run path) (fun _ => True)
      (Image.saveAll (host fs) file directory saved rs).run := by
  induction rs generalizing saved with
  | nil => exact pure trivial
  | cons r rest ih =>
    rw [Image.saveAll]
    cases r.data? file with
    | none => exact ih saved
    | some data =>
      have hname : IsFor run path (.writeFile (Path.join directory (r.fileName data))) :=
        ⟨directory, _, hdirectory, rfl⟩
      refine run_bind (lift (writeFile hname)) fun answer => ?_
      cases answer with
      | ok => exact ih (saved + 1)
      | error reason => exact pure trivial

theorem Asks.extractResources [Sniffer] {directory : Path}
    (hdirectory : run.options.extractTo = some directory) (image : Image) :
    Asks (IsFor run path) (fun _ => True)
      (image.extractResources (host fs) directory).run := by
  rw [Image.extractResources]
  cases image.resources with
  | error fault => exact pure trivial
  | ok rs =>
    refine run_bind (lift (createDirectory hdirectory)) fun answer => ?_
    cases answer with
    | ok => exact saveAll hdirectory image.data 0 rs
    | error reason => exact pure trivial

end

/-! ## One target after the other -/

/-- What a run does with a target between parsing it and the next target. -/
def finish (run : Run (StateM (Traced σ))) (engines : Engines (StateM (Traced σ))) (path : Path)
    (isLast : Bool) (types : Run.FileTypes (StateM (Traced σ))) :
    Except Failure (Target (StateM (Traced σ))) →
      ExceptT Failure (StateM (Traced σ)) (Run.FileTypes (StateM (Traced σ)))
  | .error failure => do
    run.host.say failure.line
    let types ← run.identify types path
    run.host.say "\n"
    return types
  | .ok target => do
    run.analyze engines target
    if !isLast then
      run.host.print Run.separator
    return types

/-- The count of targets after one more. -/
def counted (report : RunReport) : Except Failure (Target (StateM (Traced σ))) → RunReport
  | .error _ => { report with
      attempted := report.attempted + 1
      parseFailures := report.parseFailures + 1 }
  | .ok _ => { report with attempted := report.attempted + 1, analyzed := report.analyzed + 1 }

theorem handle_cons (run : Run (StateM (Traced σ))) (engines : Engines (StateM (Traced σ)))
    (path : Path)
    (rest : List Path) (types : Run.FileTypes (StateM (Traced σ))) (report : RunReport) :
    run.handle engines (path :: rest) types report = (do
      let answer ← ExceptT.lift (run.parse path)
      let types ← finish run engines path rest.isEmpty types answer
      run.handle engines rest types (counted report answer)) := by
  rw [Run.handle]
  refine bind_congr fun answer => ?_
  cases answer with
  | error failure => simp only [finish, counted, bind_assoc, pure_bind]
  | ok target =>
    simp only [finish, counted, bind_assoc]
    cases rest.isEmpty <;> simp

section

variable [Sniffer] {compile : RuleCompiler} {a : Arguments} {s : Settings}
  {engines : Engines (StateM (Traced σ))}
  {types : Run.FileTypes (StateM (Traced σ))} {path : Path}

theorem Uses.analyze (hengines : AreSearches fs s.reading engines) (image : Image) :
    Uses (IsFor (runOf (host fs) compile a s) path) (fun _ => True)
      ((runOf (host fs) compile a s).analyze engines (Target.ofImage (host fs) path image)) := by
  have hkept : Run.IsKept (runOf (host fs) compile a s).host fun _ x =>
      Uses (IsFor (runOf (host fs) compile a s) path) (fun _ => True) x := isKept _
  -- a resource that cannot be saved is told, and the run goes on
  refine hkept.analyze_of_extract (Target.isInMemory_ofImage _ _ _) (fun directory hdirectory => ?_)
    (fun engine hengine => lift (Asks.scan_of_isSearch hengines.packer hengine path))
    fun engine hengine => lift (Asks.scan_of_isSearch hengines.malware hengine path)
  refine (lift (Asks.extractResources hdirectory image)).bind fun answer _ => ?_
  cases answer with
  | ok saved => exact pure trivial
  | error failure => exact say _

/-- The engine for kinds of files is loaded at most, and searches in the content of files then. -/
theorem Asks.ready (htypes : IsSearch fs s.reading (loaded? types)) :
    Asks (IsFor (runOf (host fs) compile a s) path)
      (fun types => IsSearch fs s.reading (loaded? types))
      (types.ready (runOf (host fs) compile a s)) := by
  cases types with
  | unavailable => exact pure htypes
  | loaded engine => exact pure htypes
  | notLoaded =>
    have hrules : ∀ call ∈ [FileCall.content s.rules.fileType],
        IsFor (runOf (host fs) compile a s) path call := List.forall_mem_singleton.2 (.inr rfl)
    refine of_after fun t => ?_
    have hload : ((runOf (host fs) compile a s).load .fileType
        (EngineKind.fileType.rulePath (runOf (host fs) compile a s).rules)).run t = _ :=
      run_loadEngine fs compile s.reading .fileType s.rules.fileType
    rw [Run.FileTypes.ready, run_step hload]
    cases searchIn fs t.files compile .fileType s.rules.fileType with
    | ok search => exact ⟨_, _, rfl, isSearch_engine search, hrules⟩
    | error failure => exact ⟨_, _, rfl, isSearch_none, hrules⟩

theorem Uses.identify (htypes : IsSearch fs s.reading (loaded? types)) :
    Uses (IsFor (runOf (host fs) compile a s) path)
      (fun types => IsSearch fs s.reading (loaded? types))
      ((runOf (host fs) compile a s).identify types path) := by
  have hstatus : Asks (IsFor (runOf (host fs) compile a s) path) (fun _ => True)
      ((host fs).status path) := Asks.status rfl
  refine (lift hstatus).bind fun status _ => ?_
  rcases status with reason | _ | size
  · exact pure htypes
  · exact pure htypes
  · refine (lift (Asks.ready htypes)).bind fun types htypes => ?_
    cases types with
    | notLoaded => exact pure htypes
    | unavailable => exact pure htypes
    | loaded engine =>
      refine (lift (Asks.scan_of_isSearch htypes rfl path)).bind fun found _ => ?_
      exact (say _).bind fun _ _ => pure htypes

theorem Uses.finish (compile : RuleCompiler) (a : Arguments)
    (hengines : AreSearches fs s.reading engines)
    (htypes : IsSearch fs s.reading (loaded? types)) (isLast : Bool)
    {answer : Except Failure (Target (StateM (Traced σ)))}
    (hanswer : ∀ target, answer = .ok target →
      ∃ image, target = Target.ofImage (host fs) path image) :
    Uses (IsFor (runOf (host fs) compile a s) path)
      (fun types => IsSearch fs s.reading (loaded? types))
      (Program.finish (runOf (host fs) compile a s) engines path isLast types answer) := by
  cases answer with
  | error failure =>
    exact (say _).bind fun _ _ => (identify htypes).bind fun types htypes =>
      (say _).bind fun _ _ => pure htypes
  | ok target =>
    obtain ⟨image, rfl⟩ := hanswer target rfl
    refine (analyze hengines image).bind fun _ _ => ?_
    cases isLast with
    | true => exact pure htypes
    | false => exact (print _).bind fun _ _ => pure htypes

/-- With open streams a run attempts all of its targets and ends well. -/
theorem exists_run_handle (compile : RuleCompiler) (a : Arguments)
    (hengines : AreSearches fs s.reading engines) (targets : List Path)
    (htypes : IsSearch fs s.reading (loaded? types)) (report : RunReport) {t : Traced σ}
    (ht : t.IsOpen) :
    ∃ report' t', ((runOf (host fs) compile a s).handle engines targets types report).run.run t =
        (.ok report', t') ∧
      report'.attempted = report.attempted + targets.length ∧
      Attempts (runOf (host fs) compile a s) t targets t' := by
  -- which engine for kinds of files there is depends on the targets before
  induction targets generalizing types report t with
  | nil => exact ⟨report, t, rfl, rfl, .nil t⟩
  | cons path rest ih =>
    obtain ⟨answer, calls, hparse, -, hanswer⟩ :=
      exists_run_ofImageFile s.reading s.limits path t
    have hparse : ((runOf (host fs) compile a s).parse path).run t = _ := hparse
    have hopen : (t.after (.status path :: calls)).IsOpen := ht
    obtain ⟨_, next, later, hfinish, ⟨types', rfl, htypes'⟩, hnext, hlater, hfor⟩ :=
      Uses.finish compile a hengines htypes rest.isEmpty hanswer _ hopen
    obtain ⟨report', t', hrest, hcount, hattempts⟩ := ih htypes' (counted report answer) hnext
    refine ⟨report', t', ?_, ?_, .cons hparse hlater hfor hattempts⟩
    · rw [handle_cons, run_bind_eq (run_lift_eq hparse), run_bind_eq hfinish, hrest]
    · rw [hcount, List.length_cons]
      cases answer <;> simp only [counted] <;> omega

/-- No directory is listed for a target. -/
theorem Attempts.children_mem {targets : List Path} {t t' : Traced σ} {directory : Path}
    (h : Attempts (runOf (host fs) compile a s) t targets t')
    (hmem : FileCall.children directory ∈ t'.calls) : FileCall.children directory ∈ t.calls := by
  induction h with
  | nil => exact hmem
  | @cons path _ t _ next _ _ calls hparse hnext hfor _ ih =>
    obtain ⟨answer, reading, hrun, hreading, -⟩ :=
      exists_run_ofImageFile s.reading s.limits path t
    obtain ⟨-, rfl⟩ := Prod.mk.inj (hparse.symm.trans hrun)
    -- parsing looks at the target and reads it, and what follows is for the target
    have hmem := ih hmem
    rw [hnext, List.mem_append, Traced.after, List.mem_append, List.mem_cons] at hmem
    rcases hmem with (hold | hstatus | hread) | hlater
    · exact hold
    · cases hstatus
    · cases hreading _ hread
    · exact (hfor _ hlater).elim

end

end ImageTriage.Program
