import ImageTriage.Proofs.Batch.Observed
import ImageTriage.Proofs.Bytes.Layout
import ImageTriage.Proofs.Report.Blocks

/-!
# Runs whose report fills up

A report may take a number of bytes and no more. A run on image files then does what it does with
a report that takes everything, up to the byte that does not fit, and stops there with a failed
write (`execute_within_room`). It has then handed to the parser what the other run hands over while
its report has no more bytes than that.

Both runs are followed side by side. `Cuts` says of a part of a run that it ends well when the
report takes everything (`Extends` says what it leaves), that it does the same as long as its bytes
fit, and that it stops cleanly when they do not (`IsCut`). Parts that follow each other keep this
(`Cuts.bind`), so it is enough to look at single writes and at what reads files only.
-/

namespace ImageTriage

open Bytes

/-- The host whose operations are carried over to another monad. -/
def Host.through {m n : Type → Type} (carry : ∀ {α : Type}, m α → n α) (host : Host m) :
    Host n where
  status path := carry (host.status path)
  content path := carry (host.content path)
  children path := carry (host.children path)
  createDirectory path := carry (host.createDirectory path)
  writeFile path content := carry (host.writeFile path content)
  writeOut text := carry (host.writeOut text)
  writeErr text := carry (host.writeErr text)

namespace Batch

/-- The surroundings of a run on image files, with a note of what the parser was given. -/
structure Watched where
  world : World
  /-- The paths that were handed to the parser, in order, each with the number of bytes that the
  report had at that time. -/
  handed : List (Path × Nat) := []

namespace Watched

/-- An operation on the surroundings alone. -/
def onWorld {α : Type} (step : StateM World α) : StateM Watched α := fun w =>
  ((step.run w.world).1, { w with world := (step.run w.world).2 })

/-- The host of a run on image files. -/
def host : Host (StateM Watched) := World.host.through onWorld

/-- The bytes of the report. -/
def report (w : Watched) : List UInt8 := w.world.out.written.list

/-- The bytes of the diagnostics. -/
def diagnostics (w : Watched) : List UInt8 := w.world.err.written.list

/-- The same surroundings with a report that takes `limit` bytes in all. -/
def within (w : Watched) (limit : Nat) : Watched :=
  { w with world := { w.world with
      out := { w.world.out with room := some (limit - w.report.length) } } }

/-- The surroundings after a path was handed to the parser. -/
def hand (w : Watched) (path : Path) : Watched :=
  { w with handed := w.handed ++ [(path, w.report.length)] }

end Watched

/-- A batch of image files: how files are read, what is wanted, and engines whose answers depend on
what they are asked alone. -/
structure ImageBatch where
  reading : ReadLimits
  limits : Limits
  load : EngineKind → Path → Except Failure Search
  rules : RulePaths
  options : RunOptions
  packer : Option Search
  malware : Option Search

namespace ImageBatch

/-- The engine of a search. -/
def engine (search : Search) : Engine (StateM Watched) := fun path => pure (search path)

/-- The run of a batch. -/
def run [Sniffer] (b : ImageBatch) : Run (StateM Watched) where
  host := Watched.host
  parse path := do
    modify (·.hand path)
    Target.ofImageFile Watched.host b.reading b.limits path
  load kind rules := return (b.load kind rules).map engine
  rules := b.rules
  options := b.options

/-- The engines that were asked for. -/
def engines (b : ImageBatch) : Engines (StateM Watched) where
  packer := b.packer.map engine
  malware := b.malware.map engine

/-- Handles the targets among the given files. The report takes as many bytes as `room` says. -/
def execute [Sniffer] (b : ImageBatch) (files : FileTree) (room : Option Nat)
    (targets : List Path) : Except Failure RunReport × Watched :=
  (b.run.execute b.engines targets).run.run { world := { files, out := { room } } }

end ImageBatch

/-! ## A run with room and a run without -/

namespace Watched

/-- Surroundings with open streams, whose notes are of times when the report was no longer. -/
structure IsReady (w : Watched) : Prop extends w.world.IsOpen where
  handed_le : ∀ x ∈ w.handed, x.2 ≤ w.report.length

/-- What a part of a run leaves that hands these paths to the parser. -/
structure Extends (w : Watched) (paths : List Path) (w' : Watched) : Prop where
  isReady : w'.IsReady
  report_grows : w.report <+: w'.report
  diagnostics_grow : w.diagnostics <+: w'.diagnostics
  handed_grows : ∃ later, w'.handed = w.handed ++ later ∧ later.map Prod.fst = paths ∧
    ∀ x ∈ later, w.report.length ≤ x.2

/-- What is left of a part of a run that began at `w` and would have led to `w'`, when the report
takes no more than `limit` bytes. -/
structure IsCut (w : Watched) (limit : Nat) (w' v : Watched) : Prop where
  report_eq : v.report = w'.report.take limit
  diagnostics_prefix : v.diagnostics <+: w'.diagnostics
  handed_grows : w.handed <+: v.handed
  handed_le : ∀ x ∈ v.handed, x.2 ≤ limit
  handed_later : ∃ later, w'.handed = v.handed ++ later ∧ ∀ x ∈ later, limit < x.2

/-- The surroundings after more was written to the streams. -/
def wrote (w : Watched) (out err : Bytes) : Watched := { w with world := w.world.wrote out err }

@[simp] theorem report_wrote (w : Watched) (out err : Bytes) :
    (w.wrote out err).report = w.report ++ out.list := by
  simp only [wrote, report, World.wrote, list, ByteArray.data_append, Array.toList_append]

@[simp] theorem diagnostics_wrote (w : Watched) (out err : Bytes) :
    (w.wrote out err).diagnostics = w.diagnostics ++ err.list := by
  simp only [wrote, diagnostics, World.wrote, list, ByteArray.data_append, Array.toList_append]

theorem length_report_wrote (w : Watched) (out err : Bytes) :
    (w.wrote out err).report.length = w.report.length + out.size := by
  rw [report_wrote, List.length_append]
  rfl

theorem IsReady.wrote {w : Watched} (hw : w.IsReady) (out err : Bytes) :
    (w.wrote out err).IsReady where
  toIsOpen := hw.toIsOpen.wrote out err
  handed_le x hx := by
    rw [length_report_wrote]
    exact Nat.le_add_right_of_le (hw.handed_le x hx)

theorem IsReady.extends_wrote {w : Watched} (hw : w.IsReady) (out err : Bytes) :
    w.Extends [] (w.wrote out err) where
  isReady := hw.wrote out err
  report_grows := by simp
  diagnostics_grow := by simp
  handed_grows := ⟨[], (List.append_nil _).symm, rfl, fun _ hx => (List.not_mem_nil hx).elim⟩

variable {w : Watched} {text : String} {limit : Nat}

theorem run_writeOut (w : Watched) (text : String) :
    (host.writeOut text).run w = ((w.world.out.write text).1,
      { w with world := { w.world with out := (w.world.out.write text).2 } }) := rfl

theorem writeOut_of_isReady (hw : w.IsReady) (text : String) :
    (host.writeOut text).run w = (.ok (), w.wrote text.toUTF8 .empty) := by
  rw [run_writeOut, Stream.write_of_open hw.out_open, wrote, World.wrote, ByteArray.append_empty]

theorem writeErr_of_err_open (hw : w.world.err.room = none) (text : String) :
    (host.writeErr text).run w = (.ok (), w.wrote .empty text.toUTF8) := by
  change ((w.world.writeErr text).1, { w with world := (w.world.writeErr text).2 }) = _
  rw [World.writeErr, Stream.write_of_open hw, wrote, World.wrote, ByteArray.append_empty]

theorem within_wrote_err (w : Watched) (limit : Nat) (err : Bytes) :
    (w.within limit).wrote .empty err = (w.wrote .empty err).within limit := by
  simp only [within, wrote, World.wrote, report, ByteArray.append_empty]

/-- What fits is written as if the report took everything. -/
theorem writeOut_within_of_fits (hlimit : w.report.length ≤ limit)
    (hfits : (w.wrote text.toUTF8 .empty).report.length ≤ limit) :
    (host.writeOut text).run (w.within limit) =
      (.ok (), (w.wrote text.toUTF8 .empty).within limit) := by
  rw [length_report_wrote] at hfits
  have hroom : text.toUTF8.size ≤ limit - w.report.length := by omega
  have hwrite : (w.within limit).world.out.write text = _ := Stream.write_of_fits rfl hroom
  rw [run_writeOut, hwrite, Nat.sub_sub, ← length_report_wrote w text.toUTF8 .empty]
  simp only [within, wrote, World.wrote, ByteArray.append_empty]

/-- Of what does not fit the first bytes are written. -/
theorem writeOut_within_of_full (hw : w.IsReady) (hlimit : w.report.length ≤ limit)
    (hlong : limit < (w.wrote text.toUTF8 .empty).report.length) :
    ∃ v, (host.writeOut text).run (w.within limit) = (.error Stream.full, v) ∧
      w.IsCut limit (w.wrote text.toUTF8 .empty) v := by
  rw [length_report_wrote] at hlong
  have hroom : limit - w.report.length < text.toUTF8.size := by omega
  have hwrite : (w.within limit).world.out.write text = _ := Stream.write_of_full rfl hroom
  refine ⟨{ w with world := { w.world with out := {
    written := w.world.out.written ++ text.toUTF8.extract 0 (limit - w.report.length)
    room := some 0 } } }, ?_, ?_⟩
  · rw [run_writeOut, hwrite]
    rfl
  · refine ⟨?_, by simp [diagnostics, wrote, World.wrote], List.prefix_refl _,
      fun x hx => (hw.handed_le x hx).trans hlimit, [], (List.append_nil _).symm,
      fun x hx => (List.not_mem_nil hx).elim⟩
    have hreport : list (w.world.out.written ++ text.toUTF8.extract 0 (limit - w.report.length)) =
        w.report ++ (list text.toUTF8).take (limit - w.report.length) := by
      simp [report, list]
    rw [report_wrote, List.take_append, List.take_of_length_le hlimit, ← hreport]
    rfl

theorem IsReady.extends_self (hw : w.IsReady) : w.Extends [] w where
  isReady := hw
  report_grows := List.prefix_refl _
  diagnostics_grow := List.prefix_refl _
  handed_grows := ⟨[], (List.append_nil _).symm, rfl, fun _ hx => (List.not_mem_nil hx).elim⟩

theorem IsReady.extends_hand (hw : w.IsReady) (path : Path) : w.Extends [path] (w.hand path) where
  isReady := {
    toIsOpen := hw.toIsOpen
    handed_le x hx := by
      rcases List.mem_append.1 hx with hx | hx
      · exact hw.handed_le x hx
      · rw [List.mem_singleton.1 hx]
        exact Nat.le_refl _ }
  report_grows := List.prefix_refl _
  diagnostics_grow := List.prefix_refl _
  handed_grows := by
    refine ⟨[(path, w.report.length)], rfl, rfl, fun x hx => ?_⟩
    rw [List.mem_singleton.1 hx]

variable {w' w'' v : Watched} {paths paths' : List Path}

theorem Extends.trans (h : w.Extends paths w') (h' : w'.Extends paths' w'') :
    w.Extends (paths ++ paths') w'' := by
  obtain ⟨later, hlater, hpaths, hle⟩ := h.handed_grows
  obtain ⟨later', hlater', hpaths', hle'⟩ := h'.handed_grows
  refine ⟨h'.isReady, h.report_grows.trans h'.report_grows,
    h.diagnostics_grow.trans h'.diagnostics_grow, later ++ later', ?_, ?_, fun x hx => ?_⟩
  · rw [hlater', hlater, List.append_assoc]
  · rw [List.map_append, hpaths, hpaths']
  · rcases List.mem_append.1 hx with hx | hx
    · exact hle x hx
    · exact h.report_grows.length_le.trans (hle' x hx)

/-- A part that is cut stays cut whatever was to follow. -/
theorem IsCut.extend (h : w.IsCut limit w' v) (hlimit : limit < w'.report.length)
    (h' : w'.Extends paths' w'') : w.IsCut limit w'' v := by
  obtain ⟨later, hlater, habove⟩ := h.handed_later
  obtain ⟨later', hlater', -, hle'⟩ := h'.handed_grows
  obtain ⟨more, hmore⟩ := h'.report_grows
  refine ⟨?_, h.diagnostics_prefix.trans h'.diagnostics_grow, h.handed_grows, h.handed_le,
    later ++ later', ?_, fun x hx => ?_⟩
  · rw [h.report_eq, ← hmore, List.take_append_of_le_length (by omega)]
  · rw [hlater', hlater, List.append_assoc]
  · rcases List.mem_append.1 hx with hx | hx
    · exact habove x hx
    · exact hlimit.trans_le (hle' x hx)

/-- What is cut behind a first part is cut. -/
theorem IsCut.behind (h : w.Extends paths w') (h' : w'.IsCut limit w'' v) :
    w.IsCut limit w'' v := by
  obtain ⟨later, hlater, -⟩ := h.handed_grows
  exact { h' with handed_grows := .trans ⟨later, hlater.symm⟩ h'.handed_grows }

end Watched

open Watched

variable {α β : Type}

/-! ## Reading files -/

/-- An operation that changes nothing and answers by the files alone. -/
def Reads (y : StateM Watched α) : Prop := ∃ g : FileTree → α, ∀ w, y.run w = (g w.world.files, w)

namespace Reads

theorem pure (a : α) : Reads (Pure.pure a) := ⟨fun _ => a, fun _ => rfl⟩

theorem bind {y : StateM Watched α} {f : α → StateM Watched β} (hy : Reads y)
    (hf : ∀ a, Reads (f a)) : Reads (y >>= f) := by
  obtain ⟨g, hg⟩ := hy
  choose h hh using hf
  refine ⟨fun files => h (g files) files, fun w => ?_⟩
  rw [StateT.run_bind, hg]
  exact hh _ w

theorem bind_ok {y : ExceptT String (StateM Watched) α}
    {f : α → ExceptT String (StateM Watched) β} (hy : Reads y.run) (hf : ∀ a, Reads (f a).run) :
    Reads (y >>= f).run := by
  refine Reads.bind (f := ExceptT.bindCont f) hy fun answer => ?_
  cases answer with
  | ok a => exact hf a
  | error reason => exact pure _

theorem status (path : Path) : Reads (Watched.host.status path) :=
  ⟨fun files => ({ files } : World).status path, fun _ => rfl⟩

theorem content (path : Path) : Reads (Watched.host.content path) :=
  ⟨fun files => World.told (files.read path), fun _ => rfl⟩

theorem readBounded (reading : ReadLimits) (path : Path) :
    Reads (Watched.host.readBounded reading path).run := by
  have hsize : Reads (Watched.host.checkedSize reading path).run := by
    refine bind_ok (status path) fun found => ?_
    cases found with
    | directory => exact pure _
    | file size => exact bind_ok (pure (reading.checkSize size)) fun _ => pure _
  exact bind_ok hsize fun _ => bind_ok (content path) fun _ => pure _

/-- Parsing reads files only, and what it answers is the target of an image. -/
theorem exists_ofImageFile [Sniffer] (reading : ReadLimits) (limits : Limits) (path : Path) :
    ∃ g : FileTree → Except Failure (Target (StateM Watched)),
      (∀ w : Watched, (Target.ofImageFile Watched.host reading limits path).run w =
        (g w.world.files, w)) ∧
      ∀ files target, g files = .ok target → target.IsInMemory := by
  obtain ⟨g, hg⟩ := readBounded reading path
  refine ⟨fun files => (g files).mapError (fun reason => .parse path (.io reason)) >>=
    Target.ofBytes Watched.host limits path, fun w => ?_, fun files target h => ?_⟩
  · rw [Target.ofImageFile, run_step (hg w)]
    dsimp only
    cases g w.world.files <;> rfl
  · dsimp only at h
    cases hcontent : g files with
    | ok data =>
      rw [hcontent] at h
      obtain ⟨image, rfl⟩ := Target.eq_ofImage_of_ofBytes h
      exact Target.isInMemory_ofImage _ _ _
    | error reason =>
      rw [hcontent] at h
      cases h

end Reads

/-! ## Parts of a run -/

/-- A part of a run that hands these paths to the parser and gives one of these answers: it ends
well when the report takes everything, does the same while its bytes fit, and else stops at the
first byte that does not. -/
def Cuts (paths : List Path) (answers : α → Prop) (x : ExceptT Failure (StateM Watched) α) : Prop :=
  ∀ w : Watched, w.IsReady → ∃ a w', x.run.run w = (.ok a, w') ∧ answers a ∧
    w.Extends paths w' ∧ ∀ limit, w.report.length ≤ limit →
      (w'.report.length ≤ limit → x.run.run (w.within limit) = (.ok a, w'.within limit)) ∧
      (limit < w'.report.length → ∃ v, x.run.run (w.within limit) = (.error (.io Stream.full), v) ∧
        w.IsCut limit w' v)

namespace Cuts

variable {paths paths' : List Path} {answers : α → Prop} {answers' : β → Prop}
  {x : ExceptT Failure (StateM Watched) α} {f : α → ExceptT Failure (StateM Watched) β}

theorem bind (hx : Cuts paths answers x) (hf : ∀ a, answers a → Cuts paths' answers' (f a)) :
    Cuts (paths ++ paths') answers' (x >>= f) := by
  intro w hw
  obtain ⟨a, w', hrun, ha, hext, hlimits⟩ := hx w hw
  obtain ⟨b, w'', hrun', hb, hext', hlimits'⟩ := hf a ha w' hext.isReady
  refine ⟨b, w'', (run_bind_eq hrun).trans hrun', hb, hext.trans hext', fun limit hlimit => ?_⟩
  obtain ⟨hfits, hstops⟩ := hlimits limit hlimit
  have hgrows := hext'.report_grows.length_le
  by_cases hfirst : w'.report.length ≤ limit
  · obtain ⟨hfits', hstops'⟩ := hlimits' limit hfirst
    rw [run_bind_eq (hfits hfirst)]
    refine ⟨hfits', fun hlong => ?_⟩
    obtain ⟨v, hv, hcut⟩ := hstops' hlong
    exact ⟨v, hv, hcut.behind hext⟩
  · obtain ⟨v, hv, hcut⟩ := hstops (by omega)
    exact ⟨fun hshort => by omega, fun _ =>
      ⟨v, run_bind_error hv, hcut.extend (by omega) hext'⟩⟩

/-- A part that writes nothing to the report. -/
theorem of_quiet (h : ∀ w : Watched, w.IsReady → ∃ a w', x.run.run w = (.ok a, w') ∧ answers a ∧
    w.Extends paths w' ∧ w'.report = w.report ∧
    ∀ limit, x.run.run (w.within limit) = (.ok a, w'.within limit)) :
    Cuts paths answers x := by
  intro w hw
  obtain ⟨a, w', hrun, ha, hext, hreport, hlimits⟩ := h w hw
  refine ⟨a, w', hrun, ha, hext, fun limit hlimit => ⟨fun _ => hlimits limit, fun hlong => ?_⟩⟩
  rw [hreport] at hlong
  omega

theorem pure {a : α} (ha : answers a) : Cuts [] answers (Pure.pure a) :=
  of_quiet fun w hw => ⟨a, w, rfl, ha, hw.extends_self, rfl, fun _ => rfl⟩

/-- What reads files only. -/
theorem lift {y : StateM Watched α} (hy : Reads y) : Cuts [] (fun _ => True) (ExceptT.lift y) := by
  obtain ⟨g, hg⟩ := hy
  exact of_quiet fun w hw => ⟨g w.world.files, w, run_lift_eq (hg w), trivial, hw.extends_self, rfl,
    fun limit => run_lift_eq (hg (w.within limit))⟩

theorem print (text : String) : Cuts [] (fun _ => True) (Watched.host.print text) := by
  intro w hw
  refine ⟨(), w.wrote text.toUTF8 .empty, Host.run_print (writeOut_of_isReady hw text), trivial,
    hw.extends_wrote _ _, fun limit hlimit => ⟨fun hfits => ?_, fun hlong => ?_⟩⟩
  · exact Host.run_print (writeOut_within_of_fits hlimit hfits)
  · obtain ⟨v, hv, hcut⟩ := writeOut_within_of_full hw hlimit hlong
    exact ⟨v, Host.run_print_error hv, hcut⟩

theorem say (text : String) : Cuts [] (fun _ => True) (Watched.host.say text) :=
  of_quiet fun w hw => ⟨(), w.wrote .empty text.toUTF8,
    Host.run_say (writeErr_of_err_open hw.err_open text), trivial, hw.extends_wrote _ _, by simp,
    fun limit => by
      have hopen : (w.within limit).world.err.room = none := hw.err_open
      rw [← within_wrote_err]
      exact Host.run_say (writeErr_of_err_open hopen text)⟩

theorem isKept : Run.IsKept Watched.host fun _ x => Cuts [] (fun _ => True) x where
  pure _ := pure trivial
  bind hx hf := hx.bind fun a _ => hf a
  print := print
  say := say

theorem scan (search : Search) (path : Path) :
    Cuts [] (fun _ => True) (liftM (ImageBatch.engine search path)) :=
  lift (Reads.pure (search path))

/-- The answer of the parser is a failure or a target in memory. -/
def IsParsed (answer : Except Failure (Target (StateM Watched))) : Prop :=
  ∀ target, answer = .ok target → target.IsInMemory

variable [Sniffer] (b : ImageBatch)

/-- All that is done with an image, when no resources are to be saved. -/
theorem analyze (h : b.options.extractTo = none) {target : Target (StateM Watched)}
    (htarget : target.IsInMemory) : Cuts [] (fun _ => True) (b.run.analyze b.engines target) := by
  have hkept : Run.IsKept b.run.host fun _ x => Cuts [] (fun _ => True) x := isKept
  exact hkept.analyze h (Option.forall_mem_map.2 fun search _ => scan search)
    (Option.forall_mem_map.2 fun search _ => scan search) htarget

theorem exists_run_parse (path : Path) :
    ∃ g : FileTree → Except Failure (Target (StateM Watched)),
      (∀ w : Watched, (b.run.parse path).run w = (g w.world.files, w.hand path)) ∧
      ∀ files, IsParsed (g files) := by
  obtain ⟨g, hg, hparsed⟩ := Reads.exists_ofImageFile b.reading b.limits path
  exact ⟨g, fun w => hg (w.hand path), hparsed⟩

theorem parse (path : Path) :
    Cuts [path] IsParsed (ExceptT.lift (b.run.parse path)) := by
  obtain ⟨g, hrun, hparsed⟩ := exists_run_parse b path
  exact of_quiet fun w hw => ⟨g w.world.files, w.hand path, run_lift_eq (hrun w), hparsed _,
    hw.extends_hand path, rfl, fun limit => run_lift_eq (hrun (w.within limit))⟩

/-- An engine for kinds of files that answers by what it is asked alone, or none. -/
def IsSearch (types : Run.FileTypes (StateM Watched)) : Prop :=
  ∀ engine, types = .loaded engine → ∃ search, engine = ImageBatch.engine search

variable {types : Run.FileTypes (StateM Watched)}

theorem ready (htypes : IsSearch types) :
    Cuts [] IsSearch (ExceptT.lift (types.ready b.run)) := by
  cases types with
  | notLoaded =>
    cases hload : b.load .fileType b.rules.fileType with
    | ok search =>
      have hready : (Run.FileTypes.notLoaded).ready b.run =
          Pure.pure (.loaded (ImageBatch.engine search)) := by
        simp only [Run.FileTypes.ready, ImageBatch.run, EngineKind.rulePath, pure_bind, hload]
        rfl
      rw [hready]
      refine pure fun engine hengine => ⟨search, ?_⟩
      injection hengine with hengine
      exact hengine.symm
    | error failure =>
      have hready : (Run.FileTypes.notLoaded).ready b.run = Pure.pure .unavailable := by
        simp only [Run.FileTypes.ready, ImageBatch.run, EngineKind.rulePath, pure_bind, hload]
        rfl
      rw [hready]
      exact pure fun engine hengine => nomatch hengine
  | unavailable => exact pure htypes
  | loaded engine => exact pure htypes

theorem identify (htypes : IsSearch types) (path : Path) :
    Cuts [] IsSearch (b.run.identify types path) := by
  refine (lift (Reads.status path)).bind fun status _ => ?_
  rcases status with reason | _ | size
  · exact pure htypes
  · exact pure htypes
  · refine (ready b htypes).bind fun types htypes => ?_
    cases types with
    | notLoaded => exact pure htypes
    | unavailable => exact pure htypes
    | loaded engine =>
      obtain ⟨search, rfl⟩ := htypes engine rfl
      exact (scan search path).bind fun _ _ => (say _).bind fun _ _ => pure htypes

/-- What comes after a target was handed to the parser. -/
theorem exists_handle_cons (h : b.options.extractTo = none) {rest : List Path}
    (hrest : ∀ {types}, IsSearch types → ∀ report,
      Cuts rest (fun _ => True) (b.run.handle b.engines rest types report))
    (htypes : IsSearch types) (path : Path) (report : RunReport) :
    ∃ next, b.run.handle b.engines (path :: rest) types report =
        ExceptT.lift (b.run.parse path) >>= next ∧
      ∀ answer, IsParsed answer → Cuts rest (fun _ => True) (next answer) := by
  refine ⟨_, rfl, fun answer hanswer => ?_⟩
  cases answer with
  | error failure =>
    exact (say _).bind fun _ _ => (identify b htypes path).bind fun types htypes =>
      (say _).bind fun _ _ => hrest htypes _
  | ok target =>
    refine (analyze b h (hanswer target rfl)).bind fun _ _ => ?_
    cases rest with
    | nil => exact hrest htypes _
    | cons second rest => exact (print _).bind fun _ _ => hrest htypes _

theorem handle (h : b.options.extractTo = none) (targets : List Path) (htypes : IsSearch types)
    (report : RunReport) :
    Cuts targets (fun _ => True) (b.run.handle b.engines targets types report) := by
  -- which engine for kinds of files there is depends on the targets before
  induction targets generalizing types report with
  | nil => exact pure trivial
  | cons path rest ih =>
    obtain ⟨next, hnext, hcuts⟩ := exists_handle_cons b h ih htypes path report
    rw [hnext]
    exact (parse b path).bind hcuts

/-- When a run fails for want of room, at least one target was handed to the parser. -/
theorem length_handed_lt (h : b.options.extractTo = none) {targets : List Path}
    (htypes : IsSearch types) {report : RunReport} {w v : Watched} {limit : Nat} {failure : Failure}
    (hw : w.IsReady) (hlimit : w.report.length ≤ limit)
    (hrun : (b.run.handle b.engines targets types report).run.run (w.within limit) =
      (.error failure, v)) : w.handed.length < v.handed.length := by
  cases targets with
  | nil => injection hrun with hrun; cases hrun
  | cons path rest =>
    obtain ⟨next, hnext, hcuts⟩ := exists_handle_cons b h
      (fun htypes report => handle b h rest htypes report) htypes path report
    obtain ⟨g, hparse, hparsed⟩ := exists_run_parse b path
    rw [hnext, run_bind_eq (run_lift_eq (hparse (w.within limit)))] at hrun
    change (next (g w.world.files)).run.run ((w.hand path).within limit) = _ at hrun
    have hready := (hw.extends_hand path).isReady
    obtain ⟨a, w', -, -, -, hlimits⟩ :=
      hcuts (g w.world.files) (hparsed _) (w.hand path) hready
    obtain ⟨hfits, hstops⟩ := hlimits limit hlimit
    by_cases hshort : w'.report.length ≤ limit
    · rw [hfits hshort] at hrun
      injection hrun with hrun
      cases hrun
    · obtain ⟨v', hv, hcut⟩ := hstops (by omega)
      rw [hv] at hrun
      injection hrun with _ hrun
      have hgrows := hcut.handed_grows.length_le
      rw [hand, List.length_append, List.length_singleton, hrun] at hgrows
      omega

end Cuts

/-! ## The run on all targets -/

theorem isReady_start (files : FileTree) : ({ world := { files } } : Watched).IsReady where
  out_open := rfl
  err_open := rfl
  handed_le _ hx := (List.not_mem_nil hx).elim

/-- A run with a report that takes `limit` bytes does what the run does whose report takes
everything, or stops at the first byte that does not fit. It has then handed to the parser the
targets up to the one that was being reported on. -/
theorem execute_within_room [Sniffer] (b : ImageBatch) (hextract : b.options.extractTo = none)
    (files : FileTree) (targets : List Path) (limit : Nat) :
    let whole := b.execute files none targets
    let cut := b.execute files (some limit) targets
    (∃ report, whole.1 = .ok report) ∧ whole.2.handed.map Prod.fst = targets ∧
    (whole.2.report.length ≤ limit → cut = (whole.1, whole.2.within limit)) ∧
    (limit < whole.2.report.length →
      cut.1 = .error (.io Stream.full) ∧
      cut.2.report = whole.2.report.take limit ∧
      cut.2.diagnostics <+: whole.2.diagnostics ∧
      ∃ before path start after, whole.2.handed = before ++ (path, start) :: after ∧
        cut.2.handed = before ++ [(path, start)] ∧ start ≤ limit ∧
        ∀ x ∈ after, limit < x.2) := by
  have hready := isReady_start files
  have htypes : Cuts.IsSearch .notLoaded := fun engine hengine => nomatch hengine
  obtain ⟨report, whole, hwhole, -, hext, hlimits⟩ :=
    Cuts.handle b hextract targets htypes {} _ hready
  obtain ⟨hfits, hstops⟩ := hlimits limit (Nat.zero_le limit)
  obtain ⟨later, hlater, hpaths, -⟩ := hext.handed_grows
  have hexecute : b.execute files none targets = (.ok report, whole) := hwhole
  rw [hexecute]
  refine ⟨⟨report, rfl⟩, ?_, hfits, fun hlong => ?_⟩
  · rw [hlater, List.nil_append, hpaths]
  · obtain ⟨v, hv, hcut⟩ := hstops hlong
    have hcutrun : b.execute files (some limit) targets = (.error (.io Stream.full), v) := hv
    have hsome := Cuts.length_handed_lt b hextract htypes hready (Nat.zero_le limit) hv
    obtain ⟨after, hafter, habove⟩ := hcut.handed_later
    rw [hcutrun]
    refine ⟨rfl, hcut.report_eq, hcut.diagnostics_prefix, ?_⟩
    obtain hnone | ⟨before, ⟨path, start⟩, hlast⟩ := List.eq_nil_or_concat v.handed
    · rw [hnone] at hsome
      contradiction
    · rw [List.concat_eq_append] at hlast
      refine ⟨before, path, start, after, ?_, hlast, hcut.handed_le (path, start) ?_, habove⟩
      · rw [hafter, hlast, List.append_assoc, List.singleton_append]
      · rw [hlast]
        exact List.mem_append_right _ (List.mem_singleton_self _)

/-- A batch that shows the TLS directory of each image, without engines. -/
def tlsBatch : ImageBatch where
  reading := {}
  limits := {}
  load kind rules := .error (.engineLoad kind.name rules "no such file")
  rules := default
  options := { categories := some ⟨(· == .tls)⟩ }
  packer := none
  malware := none

/-- An image whose TLS directory is nowhere, and a text. -/
def imageAndText : FileTree where
  root := .directory [("", .directory [("a.exe", .file Run.tlsNowhere), ("b.txt", .file .empty)])]

/-- A report with room for a part of its first heading only. -/
theorem execute_within_room_heading :
    letI := Sniffer.programs
    tlsBatch.options.extractTo = none ∧
    5 < (tlsBatch.execute imageAndText none ["a.exe", "b.txt"]).2.report.length ∧
    (tlsBatch.execute imageAndText (some 5) ["a.exe", "b.txt"]).1 = .error (.io Stream.full) ∧
    (tlsBatch.execute imageAndText (some 5) ["a.exe", "b.txt"]).2.report.length = 5 := by
  let := Sniffer.programs
  obtain ⟨-, -, -, hfull⟩ := execute_within_room tlsBatch rfl imageAndText ["a.exe", "b.txt"] 5
  have hlong : 5 < (tlsBatch.execute imageAndText none ["a.exe", "b.txt"]).2.report.length := by
    decide +kernel
  obtain ⟨hrun, hreport, -⟩ := hfull hlong
  refine ⟨rfl, hlong, hrun, ?_⟩
  rw [hreport, List.length_take]
  omega

end Batch

end ImageTriage
