import ImageTriage.CommandLine.Reader
import ImageTriage.Proofs.CommandLine.Attempts
import ImageTriage.Proofs.Content
import ImageTriage.Settings.Fields

/-!
# The order of a program's checks

Before its first target a program checks that there is an input, that every input is there, that the
settings load, and that the rules for packers and for malware load where they are asked for. The
first check that fails decides how it ends (`Stopped`). When none fails, each input stands for its
targets (`StandsFor`), and all of these are attempted in order (`Handled`). `run_in_order` says so
of every program whose arguments can be read, on every file system: what holds is a matter of the
files alone.

A directory stands for its entries only as far as they can be known, and arguments may ask for a
text and no run at all (`link_passed_over`).
-/

namespace ImageTriage.Program

open Traced

variable {σ : Type} {fs : FileSystem σ}

/-! ## How a program may end -/

/-- The program ended before any target, with this status if it could tell the failure. It wrote
what is said of the failure to its diagnostics, as far as there is room, and nothing else, and did
these operations on files. -/
structure Stopped [ArgumentReader] (w : Surroundings σ) (status : Nat) (failure : Failure)
    (calls : List FileCall) (answer : Nat × Traced σ) : Prop where
  status_eq : (w.err.write (failureText failure)).1 = .ok () → answer.1 = status
  out_eq : answer.2.out = w.out
  err_eq : answer.2.err = (w.err.write (failureText failure)).2
  files_eq : answer.2.files = w.files
  calls_eq : answer.2.calls = calls

/-- What an input stands for. When directories are entered, a directory stands for all that is
directly inside it, is known, and is no directory itself; everything else stands for itself. -/
def StandsFor (fs : FileSystem σ) (files : σ) (recursive : Bool) (path : Path)
    (targets : List Path) : Prop :=
  match recursive, fs.status files path with
  | true, .ok .directory => targets = inside fs files path
  | _, _ => targets = [path]

/-- The operations on files of the checks before the engines. -/
def checks (a : Arguments) : List FileCall :=
  a.inputs.map .status ++ a.settingsFile.toList.map .content

/-- Rules are read if they are asked for. -/
def rulesRead (wanted : Bool) (rules : Path) : List FileCall :=
  if wanted then [.content rules] else []

/-- Finding the targets looks at every input, and lists those that are directories. -/
def listings (fs : FileSystem σ) (files : σ) (a : Arguments) : List FileCall :=
  if a.recursive then a.inputs.flatMap (listing fs files) else []

/-- All operations on files before the first target. -/
def preparations (fs : FileSystem σ) (files : σ) (a : Arguments) (s : Settings) : List FileCall :=
  checks a ++ rulesRead a.packer s.rules.packer ++ rulesRead a.malware s.rules.malware ++
    listings fs files a

/-- From surroundings that the preparations left as they were, the program attempted all targets in
order, and ended well. -/
structure Handled [Sniffer] [SettingsDecoder] (fs : FileSystem σ) (compile : RuleCompiler)
    (a : Arguments) (s : Settings) (w : Surroundings σ) (targets : List Path) (report : RunReport)
    (answer : Nat × Traced σ) : Prop where
  status_eq : answer.1 = 0
  run_eq : (execute (host fs) compile a).run.run { toSurroundings := w } = (.ok report, answer.2)
  attempted_eq : report.attempted = targets.length
  attempts : Attempts (runOf (host fs) compile a s)
    { toSurroundings := w, calls := preparations fs w.files a s } targets answer.2
  /-- No directory is entered but those that were named. -/
  listed : ∀ path, FileCall.children path ∈ answer.2.calls →
    a.recursive = true ∧ path ∈ a.inputs ∧ isDirectoryIn fs w.files path = true

/-- There are inputs, all of them are there, and the settings load. -/
structure HasSettings [SettingsDecoder] (fs : FileSystem σ) (files : σ) (a : Arguments)
    (s : Settings) : Prop where
  inputs_ne : a.inputs ≠ []
  isThere : ∀ path ∈ a.inputs, IsThere fs files path
  settings_eq : settingsIn fs files a = .ok s

/-- The rules load if they are asked for. -/
def RulesLoad (fs : FileSystem σ) (files : σ) (compile : RuleCompiler) (wanted : Bool)
    (kind : EngineKind) (rules : Path) : Prop :=
  wanted = true → ∃ search, searchIn fs files compile kind rules = .ok search

/-- The end of a program with these arguments, by the first check that fails. -/
structure InOrder [Sniffer] [SettingsDecoder] [ArgumentReader] (fs : FileSystem σ)
    (compile : RuleCompiler) (a : Arguments) (w : Surroundings σ) (answer : Nat × Traced σ) :
    Prop where
  no_input : a.flaggedFiles ++ a.files = [] →
    Stopped w 2 (.argument "no input files specified") [] answer
  missing : ∀ before path after, a.flaggedFiles ++ a.files = before ++ path :: after →
    (∀ earlier ∈ before, IsThere fs w.files earlier) → ¬ IsThere fs w.files path →
    Stopped w 2 (.missingInput path) ((before ++ [path]).map .status) answer
  settings : a.inputs ≠ [] → (∀ path ∈ a.inputs, IsThere fs w.files path) →
    ∀ failure, settingsIn fs w.files a = .error failure → Stopped w 2 failure (checks a) answer
  packer : ∀ s, HasSettings fs w.files a s → a.packer = true →
    ∀ failure, searchIn fs w.files compile .packer s.rules.packer = .error failure →
    Stopped w 1 failure (checks a ++ rulesRead true s.rules.packer) answer
  malware : ∀ s, HasSettings fs w.files a s →
    RulesLoad fs w.files compile a.packer .packer s.rules.packer → a.malware = true →
    ∀ failure, searchIn fs w.files compile .malware s.rules.malware = .error failure →
    Stopped w 1 failure
      (checks a ++ rulesRead a.packer s.rules.packer ++ rulesRead true s.rules.malware) answer
  handled : ∀ s, HasSettings fs w.files a s →
    RulesLoad fs w.files compile a.packer .packer s.rules.packer →
    RulesLoad fs w.files compile a.malware .malware s.rules.malware → w.IsOpen →
    ∃ groups report,
      List.Forall₂ (StandsFor fs w.files a.recursive) (a.flaggedFiles ++ a.files) groups ∧
      Handled fs compile a s w groups.flatten report answer

/-! ## From the checks to the end -/

variable {compile : RuleCompiler} {environment : Option String} {arguments : List String}
  {a : Arguments} {s : Settings} {t : Traced σ} {w : Surroundings σ}

/-! ### Which directories are listed -/

theorem of_children_mem_listings {files : σ} {path : Path}
    (h : FileCall.children path ∈ listings fs files a) :
    a.recursive = true ∧ path ∈ a.inputs ∧ isDirectoryIn fs files path = true := by
  rw [listings] at h
  split at h
  · next hrecursive =>
    obtain ⟨input, hinput, hcall⟩ := List.mem_flatMap.1 h
    rw [listing, List.mem_cons] at hcall
    obtain hcall | hcall := hcall
    · cases hcall
    · split at hcall
      · next hdirectory =>
        obtain rfl : path = input := by simpa using hcall
        exact ⟨hrecursive, hinput, hdirectory⟩
      · cases hcall
  · cases h

theorem of_children_mem_preparations {files : σ} {path : Path}
    (h : FileCall.children path ∈ preparations fs files a s) :
    a.recursive = true ∧ path ∈ a.inputs ∧ isDirectoryIn fs files path = true := by
  -- what comes before the listings looks at paths and reads files only
  have hchecks : FileCall.children path ∉ checks a := by simp [checks]
  have hrules : ∀ wanted rules, FileCall.children path ∉ rulesRead wanted rules := by
    intro wanted rules
    cases wanted <;> simp [rulesRead]
  simp only [preparations, List.mem_append, hchecks, hrules, false_or] at h
  exact of_children_mem_listings h

/-! ### Targets -/

/-- The targets of each input. -/
def groupOf (fs : FileSystem σ) (files : σ) (recursive : Bool) (path : Path) : List Path :=
  if recursive then expand fs files path else [path]

theorem standsFor_groupOf (fs : FileSystem σ) (files : σ) (recursive : Bool) (path : Path) :
    StandsFor fs files recursive path (groupOf fs files recursive path) := by
  cases recursive with
  | false => exact rfl
  | true =>
    unfold StandsFor
    rw [groupOf, if_pos rfl, expand, isDirectoryIn]
    rcases fs.status files path with reason | _ | size <;> exact rfl

theorem run_targets (a : Arguments) :
    (Discovery.targets (host fs) a.recursive a.inputs).run t =
      ((a.inputs.map (groupOf fs t.files a.recursive)).flatten,
        t.after (listings fs t.files a)) := by
  rw [Discovery.targets, listings, ← List.flatMap_def]
  cases a.recursive with
  | false =>
    have hself : a.inputs.flatMap (groupOf fs t.files false) = a.inputs :=
      List.flatMap_singleton' a.inputs
    rw [hself]
    exact congrArg _ t.after_nil.symm
  | true => exact run_enter a.inputs

/-! ### Engines -/

section

variable [Sniffer]

theorem run_loadIf_of_error {wanted : Bool} (hwanted : wanted = true) {kind : EngineKind}
    {failure : Failure}
    (h : searchIn fs t.files compile kind (kind.rulePath s.rules) = .error failure) :
    ((runOf (host fs) compile a s).loadIf wanted kind).run.run t =
      (.error failure, t.after (rulesRead true (kind.rulePath s.rules))) := by
  have hload := run_loadEngine (t := t) fs compile s.reading kind (kind.rulePath s.rules)
  rw [h] at hload
  rw [Run.loadIf, if_pos hwanted]
  exact run_bind_error hload

theorem exists_run_loadIf {wanted : Bool} {kind : EngineKind}
    (h : RulesLoad fs t.files compile wanted kind (kind.rulePath s.rules)) :
    ∃ engine?, ((runOf (host fs) compile a s).loadIf wanted kind).run.run t =
        (.ok engine?, t.after (rulesRead wanted (kind.rulePath s.rules))) ∧
      IsSearch fs s.reading engine? := by
  cases wanted with
  | false => exact ⟨none, congrArg _ t.after_nil.symm, isSearch_none⟩
  | true =>
    obtain ⟨search, hsearch⟩ := h rfl
    have hload := run_loadEngine (t := t) fs compile s.reading kind (kind.rulePath s.rules)
    rw [hsearch] at hload
    exact ⟨_, run_bind_eq hload, isSearch_engine search⟩

/-! ### After the settings -/

/-- What a program does once its settings are loaded. -/
def proceed (fs : FileSystem σ) (compile : RuleCompiler) (a : Arguments) (s : Settings) :
    ExceptT Failure (StateM (Traced σ)) RunReport := do
  let engines ← (runOf (host fs) compile a s).prepare
  let targets ← ExceptT.lift (Discovery.targets (host fs) a.recursive a.inputs)
  (runOf (host fs) compile a s).execute engines targets

theorem exists_run_proceed
    (hpacker : RulesLoad fs t.files compile a.packer .packer s.rules.packer)
    (hmalware : RulesLoad fs t.files compile a.malware .malware s.rules.malware)
    (hopen : t.IsOpen) :
    ∃ report t', (proceed fs compile a s).run.run t = (.ok report, t') ∧
      report.attempted = (a.inputs.map (groupOf fs t.files a.recursive)).flatten.length ∧
      Attempts (runOf (host fs) compile a s)
        (((t.after (rulesRead a.packer s.rules.packer)).after
          (rulesRead a.malware s.rules.malware)).after (listings fs t.files a))
        (a.inputs.map (groupOf fs t.files a.recursive)).flatten t' := by
  -- the engine for packers is loaded first, and both before the directories are listed
  obtain ⟨packer, hrunPacker, hpacker⟩ := exists_run_loadIf (a := a) (s := s) hpacker
  obtain ⟨malware, hrunMalware, hmalware⟩ := exists_run_loadIf (a := a) (s := s)
    (t := t.after (rulesRead a.packer s.rules.packer)) hmalware
  have hprepare : (runOf (host fs) compile a s).prepare.run.run t =
      (.ok { packer, malware }, _) :=
    (run_bind_eq hrunPacker).trans (run_bind_eq hrunMalware)
  have hengines : AreSearches fs s.reading { packer, malware } := ⟨hpacker, hmalware⟩
  have hnotLoaded : IsSearch fs s.reading (loaded? .notLoaded) := isSearch_none
  obtain ⟨report, t', hhandle, hcount, hattempts⟩ :=
    exists_run_handle compile a hengines
      (a.inputs.map (groupOf fs t.files a.recursive)).flatten hnotLoaded {}
      (t := ((t.after (rulesRead a.packer s.rules.packer)).after
        (rulesRead a.malware s.rules.malware)).after (listings fs t.files a)) hopen
  rw [Nat.zero_add] at hcount
  refine ⟨report, t', ?_, hcount, hattempts⟩
  rw [proceed, run_bind_eq hprepare, run_bind_eq (run_lift_eq (run_targets a))]
  exact hhandle

variable [SettingsDecoder]

/-- With all inputs there, the settings are next. -/
theorem run_execute_of_isThere (hne : a.inputs ≠ [])
    (hthere : ∀ path ∈ a.inputs, IsThere fs t.files path) :
    (execute (host fs) compile a).run.run t =
      (settings (host fs) a >>= proceed fs compile a).run.run (t.after (a.inputs.map .status)) := by
  have hnot : ¬ a.inputs.isEmpty = true := fun h => hne (List.isEmpty_iff.1 h)
  rw [execute, if_neg hnot]
  exact run_bind_eq (run_validate hthere)

omit [Sniffer] in
/-- All inputs were looked at and the settings read, whether they load or not. -/
theorem run_settings_checks (fs : FileSystem σ) (a : Arguments) :
    (settings (host fs) a).run.run (t.after (a.inputs.map .status)) =
      (settingsIn fs t.files a, t.after (checks a)) := by
  rw [run_settings, after_after]
  rfl

theorem run_execute_of_settings (hs : HasSettings fs t.files a s) :
    (execute (host fs) compile a).run.run t =
      (proceed fs compile a s).run.run (t.after (checks a)) := by
  have hsettings := run_settings_checks (t := t) fs a
  rw [hs.settings_eq] at hsettings
  rw [run_execute_of_isThere hs.inputs_ne hs.isThere, run_bind_eq hsettings]

/-! ### The end of a program -/

variable [ArgumentReader]

theorem run_of_ok (hread : ArgumentReader.read environment arguments = .ok a) {report : RunReport}
    {t' : Traced σ} (h : (execute (host fs) compile a).run.run t = (.ok report, t')) :
    (run (host fs) compile environment arguments).run t = (0, t') := by
  rw [run, hread]
  exact run_step h

/-- A check that fails while only reading was done stops the program. -/
theorem stopped_of_error (hread : ArgumentReader.read environment arguments = .ok a)
    {failure : Failure} {calls : List FileCall}
    (h : (execute (host fs) compile a).run.run { toSurroundings := w } =
      (.error failure, { toSurroundings := w, calls })) :
    Stopped w failure.exitCode failure calls
      ((run (host fs) compile environment arguments).run { toSurroundings := w }) := by
  have htell : ((host fs).writeErr (failureText failure)).run { toSurroundings := w, calls } =
      ((w.err.write (failureText failure)).1,
        { w with err := (w.err.write (failureText failure)).2, calls }) := rfl
  rw [run, hread]
  dsimp only
  rw [run_step h]
  dsimp only
  rw [run_step htell]
  rcases hanswer : (w.err.write (failureText failure)).1 with reason | _
  · exact ⟨fun hok => absurd (hanswer.symm.trans hok) nofun, rfl, rfl, rfl, rfl⟩
  · exact ⟨fun _ => rfl, rfl, rfl, rfl, rfl⟩

theorem handled_of_settings (hread : ArgumentReader.read environment arguments = .ok a)
    (hs : HasSettings fs w.files a s)
    (hpacker : RulesLoad fs w.files compile a.packer .packer s.rules.packer)
    (hmalware : RulesLoad fs w.files compile a.malware .malware s.rules.malware)
    (hopen : w.IsOpen) :
    ∃ groups report,
      List.Forall₂ (StandsFor fs w.files a.recursive) (a.flaggedFiles ++ a.files) groups ∧
      Handled fs compile a s w groups.flatten report
        ((run (host fs) compile environment arguments).run { toSurroundings := w }) := by
  obtain ⟨report, t', hrun, hcount, hattempts⟩ :=
    exists_run_proceed (t := Traced.after { toSurroundings := w } (checks a)) hpacker hmalware hopen
  have hexecute : (execute (host fs) compile a).run.run { toSurroundings := w } =
      (.ok report, t') :=
    (run_execute_of_settings (t := { toSurroundings := w }) hs).trans hrun
  have hgroups : List.Forall₂ (StandsFor fs w.files a.recursive) a.inputs
      (a.inputs.map (groupOf fs w.files a.recursive)) :=
    List.forall₂_map_right_iff.2
      (List.forall₂_same.2 fun path _ => standsFor_groupOf fs w.files a.recursive path)
  refine ⟨_, report, hgroups, ?_⟩
  rw [run_of_ok hread hexecute]
  exact ⟨rfl, hexecute, hcount, hattempts, fun path hpath =>
    of_children_mem_preparations (hattempts.children_mem hpath)⟩

/-- The first check that fails decides how a program ends; when none fails, it attempts all targets
and ends well, however many of them are no images. -/
theorem run_in_order (fs : FileSystem σ) (compile : RuleCompiler) (environment : Option String)
    (arguments : List String) (a : Arguments) (w : Surroundings σ)
    (hread : ArgumentReader.read environment arguments = .ok a) :
    InOrder fs compile a w
      ((run (host fs) compile environment arguments).run { toSurroundings := w }) where
  no_input hnone := by
    have hempty : a.inputs.isEmpty = true := List.isEmpty_iff.2 hnone
    have hrun : (execute (host fs) compile a).run.run { toSurroundings := w } =
        (.error (.argument "no input files specified"), { toSurroundings := w, calls := [] }) := by
      rw [execute, if_pos hempty]
      rfl
    exact stopped_of_error hread hrun
  missing before path after hinputs hbefore hpath := by
    have hne : a.inputs ≠ [] := by
      rw [Arguments.inputs, hinputs]
      exact List.append_ne_nil_of_right_ne_nil _ (List.cons_ne_nil _ _)
    have hvalidate : (Discovery.validate (host fs) (before ++ path :: after)).run.run
        { toSurroundings := w } = _ := run_validate_missing hbefore hpath
    rw [← hinputs] at hvalidate
    have hrun : (execute (host fs) compile a).run.run { toSurroundings := w } =
        (.error (.missingInput path),
          { toSurroundings := w, calls := (before ++ [path]).map .status }) := by
      rw [execute, if_neg fun h => hne (List.isEmpty_iff.1 h)]
      exact run_bind_error hvalidate
    exact stopped_of_error hread hrun
  settings hne hthere failure hfailure := by
    have hsettings := run_settings_checks (t := { toSurroundings := w }) fs a
    rw [hfailure] at hsettings
    rw [← exitCode_of_settingsIn hfailure]
    refine stopped_of_error hread ?_
    rw [run_execute_of_isThere (t := { toSurroundings := w }) hne hthere]
    exact run_bind_error hsettings
  packer s hs hwanted failure hfailure := by
    rw [← exitCode_of_searchIn hfailure]
    refine stopped_of_error hread ?_
    rw [run_execute_of_settings (t := { toSurroundings := w }) hs]
    exact run_bind_error (run_bind_error (run_loadIf_of_error hwanted hfailure))
  malware s hs hpacker hwanted failure hfailure := by
    obtain ⟨packer, hrun, -⟩ := exists_run_loadIf (a := a) (s := s)
      (t := Traced.after { toSurroundings := w } (checks a)) hpacker
    rw [← exitCode_of_searchIn hfailure]
    refine stopped_of_error hread ?_
    rw [run_execute_of_settings (t := { toSurroundings := w }) hs]
    exact run_bind_error ((run_bind_eq hrun).trans
      (run_bind_error (run_loadIf_of_error hwanted hfailure)))
  handled s hs hpacker hmalware hopen := handled_of_settings hread hs hpacker hmalware hopen

end

/-! ## A run over a directory with a link in it -/

/-- What is in the directory `d` of `mixed`: two files, a link that leads back to itself and a
directory. -/
def entries : List (String × FileEntry) :=
  [("a", .file .empty), ("b", .file .empty), ("l", .deadLink .linkLoop),
    ("sub", .directory [("c", .file .empty)])]

/-- A directory where paths start, and a file at the root. -/
def mixed : FileTree where
  root := .directory [("", .directory [("d", .directory entries)]), ("x", .file .empty)]

theorem find_mixed : mixed.find "d" = .ok (.directory entries) := rfl

theorem children_mixed : FileTree.system.children mixed "d" =
    [.ok ("a", false), .ok ("b", false), .error FileFault.linkLoop.message, .ok ("sub", true)] := by
  have hsorted : entries.mergeSort (fun a b => a.1 ≤ b.1) = entries :=
    List.mergeSort_of_pairwise (by decide)
  have hlist : mixed.list "d" = entries := by
    rw [FileTree.list, find_mixed]
    exact hsorted
  change (mixed.list "d").map _ = _
  rw [hlist]
  rfl

theorem inside_mixed : inside FileTree.system mixed "d" = ["d/a", "d/b"] := by
  rw [inside, children_mixed]
  decide

/-- The arguments that ask for the directory, in an option, behind the file. -/
def bothInputs : Arguments where
  files := ["/x"]
  flaggedFiles := ["d"]
  recursive := true

/-- A compiler that makes of all rules a search without matches. -/
def noMatches : RuleCompiler := fun _ => .ok fun _ => []

theorem hasSettings_bothInputs [SettingsDecoder] :
    HasSettings FileTree.system mixed bothInputs {} where
  inputs_ne := List.cons_ne_nil _ _
  isThere := List.forall_mem_cons.2 ⟨⟨_, rfl⟩, List.forall_mem_singleton.2 ⟨_, rfl⟩⟩
  settings_eq := rfl

/-- The targets of the directory come before the file, which was named first. -/
theorem flatten_of_standsFor_mixed {groups : List (List Path)}
    (h : List.Forall₂ (StandsFor FileTree.system mixed true)
      (bothInputs.flaggedFiles ++ bothInputs.files) groups) :
    groups.flatten = ["d/a", "d/b", "/x"] := by
  obtain _ | ⟨hinside, _ | ⟨hx, _ | _⟩⟩ := h
  obtain rfl : _ = inside FileTree.system mixed "d" := hinside
  obtain rfl : _ = ["/x"] := hx
  rw [inside_mixed]
  rfl

theorem run_in_order_mixed :
    letI := Sniffer.programs
    letI := Settings.decoder
    letI := Arguments.reader
    ArgumentReader.read none ["-r", "/x", "-p", "d"] = .ok bothInputs ∧
    ∃ report, Handled FileTree.system noMatches bothInputs {} { files := mixed }
      ["d/a", "d/b", "/x"] report
      ((run (host FileTree.system) noMatches none ["-r", "/x", "-p", "d"]).run
        { files := mixed }) := by
  let := Sniffer.programs
  let := Settings.decoder
  let := Arguments.reader
  have hread : ArgumentReader.read none ["-r", "/x", "-p", "d"] = .ok bothInputs := by rfl
  obtain ⟨groups, report, hgroups, hhandled⟩ :=
    (run_in_order FileTree.system noMatches none _ _ { files := mixed } hread).handled {}
      hasSettings_bothInputs (fun h => nomatch h) (fun h => nomatch h) ⟨rfl, rfl⟩
  rw [flatten_of_standsFor_mixed hgroups] at hhandled
  exact ⟨hread, report, hhandled⟩

/-- The version of the program is asked for without a target, which is no failure. Of the entries of
a directory three are no directories, and the link among them is passed over. -/
theorem link_passed_over :
    letI := Sniffer.programs
    letI := Settings.decoder
    letI := Arguments.reader
    ((run (host FileTree.system) noMatches none ["--version"]).run { files := mixed }).1 = 0 ∧
    mixed.find "d" = .ok (.directory entries) ∧
    (entries.filter fun entry => !entry.2.isDirectory).map (Path.join "d" ·.1) =
      ["d/a", "d/b", "d/l"] ∧
    ∃ report, Handled FileTree.system noMatches bothInputs {} { files := mixed }
      ["d/a", "d/b", "/x"] report
      ((run (host FileTree.system) noMatches none ["-r", "/x", "-p", "d"]).run
        { files := mixed }) := by
  let := Sniffer.programs
  let := Settings.decoder
  let := Arguments.reader
  have hread : ArgumentReader.read none ["-r", "/x", "-p", "d"] = .ok bothInputs := by rfl
  obtain ⟨groups, report, hgroups, hhandled⟩ := handled_of_settings (w := { files := mixed }) hread
    hasSettings_bothInputs (fun h => nomatch h) (fun h => nomatch h) ⟨rfl, rfl⟩
  rw [flatten_of_standsFor_mixed hgroups] at hhandled
  exact ⟨rfl, rfl, by decide, report, hhandled⟩

end ImageTriage.Program
