import ImageTriage.CommandLine.Execution
import ImageTriage.Proofs.Batch.Streams

/-!
# What a program asks of its files

The files of a program are in some state, and a `FileSystem` says what can be done with them.
Nothing is asked of it: paths may be absolute or not, lead through links or nowhere, and of an entry
of a directory perhaps nothing can be known. `FileTree.system` is one.

A `Traced` state notes every operation on files, in order. Reading operations leave the files as
they are and add their note (`after`), so that what the parts of a program answer before its first
target can be told from the files alone: which paths are there, what the settings say, which engines
load and what the paths stand for.
-/

namespace ImageTriage

/-- Files in some state, and what can be done with them. To look and to read changes nothing. -/
structure FileSystem (σ : Type) where
  status : σ → Path → Except String FileStatus
  content : σ → Path → Except String Bytes
  /-- What is in a directory, entry by entry, in the order in which it is found. -/
  children : σ → Path → List (Except String (String × Bool))
  createDirectory : σ → Path → Except String Unit × σ
  writeFile : σ → Path → Bytes → Except String Unit × σ

/-- Trees as a file system. -/
def FileTree.system : FileSystem FileTree where
  status files path := ({ files } : World).status path
  content files path := World.told (files.read path)
  children files path := ({ files } : World).children path
  createDirectory files path :=
    ((({ files } : World).createDirectory path).1,
      (({ files } : World).createDirectory path).2.files)
  writeFile files path content :=
    ((({ files } : World).writeFile path content).1,
      (({ files } : World).writeFile path content).2.files)

namespace Program

/-- An operation on files. -/
inductive FileCall where
  | status (path : Path)
  | content (path : Path)
  | children (path : Path)
  | createDirectory (path : Path)
  | writeFile (path : Path)
  deriving DecidableEq, Repr

/-- What a program works on: files and two streams. -/
structure Surroundings (σ : Type) where
  files : σ
  out : Stream := {}
  err : Stream := {}

/-- Both streams take all that is written. -/
structure Surroundings.IsOpen {σ : Type} (w : Surroundings σ) : Prop where
  out_open : w.out.room = none
  err_open : w.err.room = none

/-- Surroundings with notes of the operations on their files. -/
structure Traced (σ : Type) extends Surroundings σ where
  calls : List FileCall := []

variable {σ : Type}

namespace Traced

/-- The state after operations that only read. -/
def after (t : Traced σ) (calls : List FileCall) : Traced σ := { t with calls := t.calls ++ calls }

@[simp] theorem after_nil (t : Traced σ) : t.after [] = t := by
  rw [after, List.append_nil]

theorem after_after (t : Traced σ) (calls later : List FileCall) :
    (t.after calls).after later = t.after (calls ++ later) := by
  rw [after, after, after, List.append_assoc]

/-- The host that works on the files of a file system. -/
def host (fs : FileSystem σ) : Host (StateM (Traced σ)) where
  status path := fun t => (fs.status t.files path, t.after [.status path])
  content path := fun t => (fs.content t.files path, t.after [.content path])
  children path := fun t => (fs.children t.files path, t.after [.children path])
  createDirectory path := fun t =>
    let (answer, files) := fs.createDirectory t.files path
    (answer, { t with files, calls := t.calls ++ [.createDirectory path] })
  writeFile path content := fun t =>
    let (answer, files) := fs.writeFile t.files path content
    (answer, { t with files, calls := t.calls ++ [.writeFile path] })
  writeOut text := fun t =>
    let (answer, out) := t.out.write text
    (answer, { t with out })
  writeErr text := fun t =>
    let (answer, err) := t.err.write text
    (answer, { t with err })

end Traced

open Traced

theorem run_liftM_bind {σ α β : Type} {s s' : σ} {a : α} {y : StateM σ α}
    {f : α → ExceptT Failure (StateM σ) β} (h : y.run s = (a, s')) :
    ((liftM y : ExceptT Failure (StateM σ) α) >>= f).run.run s = (f a).run.run s' :=
  run_bind_eq (run_lift_eq h)

/-! ## Paths -/

/-- Something stands at the path. -/
def IsThere (fs : FileSystem σ) (files : σ) (path : Path) : Prop :=
  ∃ status, fs.status files path = .ok status

/-- Whether a directory stands at the path. -/
def isDirectoryIn (fs : FileSystem σ) (files : σ) (path : Path) : Bool :=
  match fs.status files path with
  | .ok .directory => true
  | _ => false

variable {fs : FileSystem σ} {t : Traced σ} {path : Path} {paths : List Path}

theorem run_status (path : Path) :
    ((host fs).status path).run t = (fs.status t.files path, t.after [.status path]) := rfl

theorem run_isThere (h : IsThere fs t.files path) :
    ((host fs).isThere path).run t = (true, t.after [.status path]) := by
  obtain ⟨status, hstatus⟩ := h
  rw [Host.isThere, run_step (run_status path), hstatus]
  rfl

theorem run_isThere_of_not (h : ¬ IsThere fs t.files path) :
    ((host fs).isThere path).run t = (false, t.after [.status path]) := by
  rw [Host.isThere, run_step (run_status path)]
  cases hstatus : fs.status t.files path with
  | ok status => exact absurd ⟨status, hstatus⟩ h
  | error reason => rfl

/-- When all paths are there, all of them were looked at. -/
theorem run_validate (h : ∀ path ∈ paths, IsThere fs t.files path) :
    (Discovery.validate (host fs) paths).run.run t = (.ok (), t.after (paths.map .status)) := by
  induction paths generalizing t with
  | nil => exact congrArg _ t.after_nil.symm
  | cons path rest ih =>
    rw [List.forall_mem_cons] at h
    rw [Discovery.validate, run_liftM_bind (run_isThere h.1), if_pos rfl,
      ih (t := t.after [.status path]) h.2, after_after]
    rfl

/-- The first path that is missing is the failure, and nothing is looked at behind it. -/
theorem run_validate_missing {before after : List Path}
    (hbefore : ∀ path ∈ before, IsThere fs t.files path) (h : ¬ IsThere fs t.files path) :
    (Discovery.validate (host fs) (before ++ path :: after)).run.run t =
      (.error (.missingInput path), t.after ((before ++ [path]).map .status)) := by
  induction before generalizing t with
  | nil =>
    rw [List.nil_append, Discovery.validate, run_liftM_bind (run_isThere_of_not h)]
    rfl
  | cons first before ih =>
    rw [List.forall_mem_cons] at hbefore
    rw [List.cons_append, Discovery.validate,
      run_liftM_bind (run_isThere hbefore.1), if_pos rfl,
      ih (t := t.after [.status first]) hbefore.2 h, after_after]
    rfl

/-! ## Settings -/

theorem run_content (fs : FileSystem σ) (path : Path) :
    ((host fs).content path).run t = (fs.content t.files path, t.after [.content path]) := rfl

/-- The settings with the directory of rules that the arguments name. -/
def withRulesOf (a : Arguments) (s : Settings) : Settings :=
  match a.rulesDirectory with
  | some directory => s.withRules directory
  | none => s

section

variable [SettingsDecoder]

/-- What reading a settings file gives. -/
def loadedIn (fs : FileSystem σ) (files : σ) (path : Path) : Except Failure Settings :=
  match fs.content files path with
  | .error reason => .error (.configuration (path ++ ": " ++ reason))
  | .ok content => Settings.ofContent path content

/-- The settings that the arguments lead to. -/
def settingsIn (fs : FileSystem σ) (files : σ) (a : Arguments) : Except Failure Settings :=
  match a.settingsFile with
  | none => .ok (withRulesOf a {})
  | some path => (loadedIn fs files path).map (withRulesOf a)

theorem run_load (fs : FileSystem σ) (path : Path) :
    (Settings.load (host fs) path).run.run t =
      (loadedIn fs t.files path, t.after [.content path]) := by
  rw [Settings.load, run_liftM_bind (run_content fs path), loadedIn]
  cases fs.content t.files path <;> rfl

theorem settings_eq (a : Arguments) :
    settings (host fs) a =
      match a.settingsFile with
      | none => pure (withRulesOf a {})
      | some path => Settings.load (host fs) path >>= fun s => pure (withRulesOf a s) := by
  rcases a with ⟨_, _, _, _, _, _, _, _, rulesDirectory, settingsFile, _, _⟩
  cases rulesDirectory <;> cases settingsFile <;> rfl

theorem run_settings (a : Arguments) :
    (settings (host fs) a).run.run t =
      (settingsIn fs t.files a, t.after (a.settingsFile.toList.map .content)) := by
  rw [settings_eq, settingsIn]
  cases a.settingsFile with
  | none => exact congrArg _ t.after_nil.symm
  | some path =>
    have hload := run_load (t := t) fs path
    dsimp only
    cases hsettings : loadedIn fs t.files path with
    | ok s =>
      rw [hsettings] at hload
      exact run_bind_eq hload
    | error failure =>
      rw [hsettings] at hload
      exact run_bind_error hload

theorem exitCode_of_loadedIn {files : σ} {failure : Failure}
    (h : loadedIn fs files path = .error failure) : failure.exitCode = 2 := by
  unfold loadedIn Settings.ofContent at h
  repeat' split at h
  all_goals cases h
  all_goals rfl

/-- Settings that do not load end the program with the status of a wrong call. -/
theorem exitCode_of_settingsIn {files : σ} {a : Arguments} {failure : Failure}
    (h : settingsIn fs files a = .error failure) : failure.exitCode = 2 := by
  rw [settingsIn] at h
  split at h
  · cases h
  · next path _ =>
    cases hloaded : loadedIn fs files path with
    | ok s => rw [hloaded] at h; cases h
    | error reason =>
      rw [hloaded] at h
      cases h
      exact exitCode_of_loadedIn hloaded

end

/-! ## Engines -/

variable {compile : RuleCompiler}

/-- The text of a rule file. -/
def sourceIn (fs : FileSystem σ) (files : σ) (path : Path) : Except String String :=
  match fs.content files path with
  | .error reason => .error reason
  | .ok content =>
    match String.fromUTF8? content with
    | some text => .ok text
    | none => .error "stream did not contain valid UTF-8"

/-- The search that a rule file gives. -/
def searchIn (fs : FileSystem σ) (files : σ) (compile : RuleCompiler) (kind : EngineKind)
    (path : Path) : Except Failure (Bytes → List SignatureMatch) :=
  match sourceIn fs files path with
  | .error reason => .error (.engineLoad kind.name path reason)
  | .ok text =>
    match compile text with
    | .error reason => .error (.engineLoad kind.name path reason)
    | .ok search => .ok search

theorem run_sourceText (path : Path) :
    (RuleCompiler.sourceText (host fs) path).run.run t =
      (sourceIn fs t.files path, t.after [.content path]) := by
  have hcontent : (ExceptT.mk ((host fs).content path)).run.run t =
      (fs.content t.files path, t.after [.content path]) := run_content fs path
  rw [RuleCompiler.sourceText, ExceptT.run_bind, run_step hcontent, sourceIn]
  cases fs.content t.files path with
  | error reason => rfl
  | ok content =>
    dsimp only
    cases String.fromUTF8? content <;> rfl

/-- The engine of a rule file is loaded from the file alone. -/
theorem run_loadEngine (fs : FileSystem σ) (compile : RuleCompiler) (reading : ReadLimits)
    (kind : EngineKind) (path : Path) :
    (RuleCompiler.load (host fs) compile reading kind path).run t =
      ((searchIn fs t.files compile kind path).map (RuleCompiler.engine (host fs) reading),
        t.after [.content path]) := by
  rw [RuleCompiler.load, run_step (run_sourceText path), searchIn]
  cases sourceIn fs t.files path with
  | error reason => rfl
  | ok text =>
    dsimp only
    cases compile text <;> rfl

theorem exitCode_of_searchIn {files : σ} {kind : EngineKind} {failure : Failure}
    (h : searchIn fs files compile kind path = .error failure) : failure.exitCode = 1 := by
  unfold searchIn at h
  repeat' split at h
  all_goals cases h
  all_goals rfl

/-! ## What the paths stand for -/

/-- The files directly inside a directory, as far as its entries can be known, in the order in which
they are found. -/
def inside (fs : FileSystem σ) (files : σ) (directory : Path) : List Path :=
  (((fs.children files directory).filterMap Except.toOption).filter (!·.2)).map
    (Path.join directory ·.1)

/-- The targets that a path stands for when directories are entered. -/
def expand (fs : FileSystem σ) (files : σ) (path : Path) : List Path :=
  if isDirectoryIn fs files path then inside fs files path else [path]

/-- The operations on files by which that is found. -/
def listing (fs : FileSystem σ) (files : σ) (path : Path) : List FileCall :=
  .status path :: if isDirectoryIn fs files path then [.children path] else []

theorem run_isDirectory (path : Path) :
    ((host fs).isDirectory path).run t =
      (isDirectoryIn fs t.files path, t.after [.status path]) := by
  rw [Host.isDirectory, run_step (run_status path), isDirectoryIn]
  rcases fs.status t.files path with reason | _ | size <;> rfl

theorem run_filesInside (fs : FileSystem σ) (path : Path) :
    (Discovery.filesInside (host fs) path).run t =
      (inside fs t.files path, t.after [.children path]) := by
  have hrun : ((host fs).children path).run t =
      (fs.children t.files path, t.after [.children path]) := rfl
  have hinside : ∀ entries : List (Except String (String × Bool)),
      entries.filterMap (Discovery.fileInside? path) =
        ((entries.filterMap Except.toOption).filter (!·.2)).map (Path.join path ·.1) := by
    intro entries
    induction entries with
    | nil => rfl
    | cons entry rest ih =>
      rcases entry with reason | ⟨name, isDirectory⟩
      · exact ih
      · cases isDirectory with
        | true => exact ih
        | false => exact congrArg (Path.join path name :: ·) ih
  rw [Discovery.filesInside, run_step hrun]
  exact congrArg (·, t.after [.children path]) (hinside _)

/-- Directories are entered one after the other, in the order of the paths. -/
theorem run_enter (paths : List Path) :
    (Discovery.enter (host fs) paths).run t =
      (paths.flatMap (expand fs t.files), t.after (paths.flatMap (listing fs t.files))) := by
  induction paths generalizing t with
  | nil => exact congrArg _ t.after_nil.symm
  | cons path rest ih =>
    have hrest := ih (t := t.after (listing fs t.files path))
    rw [after_after] at hrest
    rw [Discovery.enter, run_step (run_isDirectory path), List.flatMap_cons, List.flatMap_cons]
    rw [listing] at hrest ⊢
    rw [expand]
    cases hdirectory : isDirectoryIn fs t.files path with
    | true =>
      have hentered := run_filesInside (t := t.after [.status path]) fs path
      rw [hdirectory, if_pos rfl] at hrest
      rw [if_pos rfl, if_pos rfl, if_pos rfl, run_step hentered, after_after,
        List.singleton_append, run_step hrest]
      rfl
    | false =>
      have hnot : ¬ false = true := Bool.false_ne_true
      rw [hdirectory, if_neg hnot] at hrest
      rw [if_neg hnot, if_neg hnot, if_neg hnot, pure_bind, run_step hrest]
      rfl

end Program

end ImageTriage
