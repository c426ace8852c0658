import Mathlib.Data.Option.Basic
import ImageTriage.Batch.Run
import ImageTriage.Proofs.Batch.Parts
import ImageTriage.Proofs.Batch.Streams

/-!
# Runs whose collaborators are functions

The parser, the loader and the engines of a run are often functions: what they answer depends on
what they are asked, and on nothing that happened before (`Collaborators`). A run with such
collaborators is watched in `Observed`, which notes every call to the parser and to the loader.

A part of such a run that ends well adds bytes to either stream and calls to the notes, the same
ones wherever it starts from (`Effect`, `Does`). Showing an image, for one, only writes
(`Writes.analyze`).
-/

namespace ImageTriage.Batch

/-- The surroundings of a run that is watched. -/
structure Observed where
  world : World := {}
  /-- The paths that the parser was given, in order. -/
  parsed : List Path := []
  /-- What the loader was asked for, in order. -/
  loaded : List (EngineKind × Path) := []

namespace Observed

/-- An operation on the surroundings alone. -/
def onWorld {α : Type} (step : StateM World α) : StateM Observed α := fun o =>
  ((step.run o.world).1, { o with world := (step.run o.world).2 })

/-- The host of a run that is watched. -/
def host : Host (StateM Observed) where
  status path := onWorld (World.host.status path)
  content path := onWorld (World.host.content path)
  children path := onWorld (World.host.children path)
  createDirectory path := onWorld (World.host.createDirectory path)
  writeFile path content := onWorld (World.host.writeFile path content)
  writeOut text := onWorld (World.host.writeOut text)
  writeErr text := onWorld (World.host.writeErr text)

end Observed

/-- A search for signatures whose answer depends on the path alone. -/
abbrev Search := Path → List SignatureMatch

/-- What a run works with, when the answers depend on the arguments alone. -/
structure Collaborators where
  parse : Path → Except Failure (Target (StateM Observed))
  load : EngineKind → Path → Except Failure Search
  rules : RulePaths
  options : RunOptions
  /-- The engines that were asked for. -/
  packer : Option Search
  malware : Option Search

namespace Collaborators

/-- The engine of a search. -/
def engine (search : Search) : Engine (StateM Observed) := fun path => pure (search path)

/-- The run with these collaborators, in which each call to the parser and the loader is noted. -/
def run (c : Collaborators) : Run (StateM Observed) where
  host := Observed.host
  parse path := do
    modify fun o => { o with parsed := o.parsed ++ [path] }
    return c.parse path
  load kind rules := do
    modify fun o => { o with loaded := o.loaded ++ [(kind, rules)] }
    return (c.load kind rules).map engine
  rules := c.rules
  options := c.options

/-- The engines that were asked for. -/
def engines (c : Collaborators) : Engines (StateM Observed) where
  packer := c.packer.map engine
  malware := c.malware.map engine

/-- Handles the targets, starting from the given surroundings. -/
def execute (c : Collaborators) (targets : List Path) (start : Observed) :
    Except Failure RunReport × Observed :=
  (c.run.execute c.engines targets).run.run start

end Collaborators

/-! ## What a part of a run does -/

/-- What a part of a run adds to the streams and to the notes. -/
@[ext] structure Effect where
  out : Bytes := .empty
  err : Bytes := .empty
  parsed : List Path := []
  loaded : List (EngineKind × Path) := []

namespace Effect

instance : Append Effect where
  append e f := {
    out := e.out ++ f.out
    err := e.err ++ f.err
    parsed := e.parsed ++ f.parsed
    loaded := e.loaded ++ f.loaded }

@[simp] theorem out_append (e f : Effect) : (e ++ f).out = e.out ++ f.out := rfl

@[simp] theorem err_append (e f : Effect) : (e ++ f).err = e.err ++ f.err := rfl

@[simp] theorem parsed_append (e f : Effect) : (e ++ f).parsed = e.parsed ++ f.parsed := rfl

@[simp] theorem loaded_append (e f : Effect) : (e ++ f).loaded = e.loaded ++ f.loaded := rfl

end Effect

namespace Observed

/-- The surroundings after a part of a run. -/
def after (o : Observed) (e : Effect) : Observed where
  world := o.world.wrote e.out e.err
  parsed := o.parsed ++ e.parsed
  loaded := o.loaded ++ e.loaded

theorem after_append (o : Observed) (e f : Effect) : o.after (e ++ f) = (o.after e).after f := by
  simp [after, World.wrote_wrote]

@[simp] theorem after_nothing (o : Observed) : o.after {} = o := by
  simp [after]

/-- The files are these, and both streams take all that is written. -/
structure Accepts (o : Observed) (files : FileTree) : Prop extends o.world.IsOpen where
  files_eq : o.world.files = files

theorem Accepts.after {o : Observed} {files : FileTree} (h : o.Accepts files) (e : Effect) :
    (o.after e).Accepts files where
  toIsOpen := h.toIsOpen.wrote e.out e.err
  files_eq := h.files_eq

theorem onWorld_run {α : Type} {step : StateM World α} {o : Observed} {a : α} {e : Effect}
    (h : step.run o.world = (a, o.world.wrote e.out e.err)) (hparsed : e.parsed = [])
    (hloaded : e.loaded = []) : (onWorld step).run o = (a, o.after e) := by
  change ((step.run o.world).1, { o with world := (step.run o.world).2 }) = _
  rw [h, after, hparsed, hloaded, List.append_nil, List.append_nil]

end Observed

open Observed

variable {α β : Type} {files : FileTree} {x : ExceptT Failure (StateM Observed) α} {a : α}
  {e : Effect}

/-- Wherever it starts from, a part of a run answers `a` and has the effect `e`. -/
def Does (files : FileTree) (x : ExceptT Failure (StateM Observed) α) (a : α) (e : Effect) : Prop :=
  ∀ o : Observed, o.Accepts files → x.run.run o = (.ok a, o.after e)

namespace Does

theorem pure (a : α) : Does files (Pure.pure a) a {} := by
  intro o _
  rw [after_nothing]
  rfl

theorem congr {g : Effect} (hx : Does files x a e) (h : e = g) : Does files x a g := h ▸ hx

theorem bind {f : α → ExceptT Failure (StateM Observed) β} {b : β} {g : Effect}
    (hx : Does files x a e) (hf : Does files (f a) b g) : Does files (x >>= f) b (e ++ g) := by
  intro o ho
  rw [run_bind_eq (hx o ho), hf _ (ho.after e), after_append]

theorem lift {y : StateM Observed α}
    (h : ∀ o : Observed, o.Accepts files → y.run o = (a, o.after e)) :
    Does files (ExceptT.lift y) a e := fun o ho => run_lift_eq (h o ho)

theorem print (text : String) :
    Does files (Observed.host.print text) () { out := text.toUTF8 } := fun _ ho =>
  Host.run_print (onWorld_run (World.writeOut_of_isOpen ho.toIsOpen text) rfl rfl)

theorem say (text : String) :
    Does files (Observed.host.say text) () { err := text.toUTF8 } := fun _ ho =>
  Host.run_say (onWorld_run (World.writeErr_of_isOpen ho.toIsOpen text) rfl rfl)

theorem status (files : FileTree) (path : Path) :
    Does files (liftM (Observed.host.status path)) (({ files } : World).status path) {} := by
  refine lift fun o ho => ?_
  rw [after_nothing, ← ho.files_eq]
  rfl

theorem scan (search : Search) (path : Path) :
    Does files (liftM (Collaborators.engine search path)) (search path) {} := by
  refine lift fun o ho => ?_
  rw [after_nothing]
  rfl

variable (c : Collaborators)

theorem parse (files : FileTree) (path : Path) :
    Does files (ExceptT.lift (c.run.parse path)) (c.parse path) { parsed := [path] } := by
  refine lift fun o ho => ?_
  simp only [Observed.after, World.wrote_nothing, List.append_nil]
  rfl

end Does

/-- A part of a run that writes to the streams, always the same, and calls nobody. -/
def Writes (files : FileTree) (x : ExceptT Failure (StateM Observed) α) : Prop :=
  ∃ a out err, Does files x a { out, err }

namespace Writes

theorem pure (a : α) : Writes files (Pure.pure a) := ⟨a, .empty, .empty, Does.pure a⟩

theorem bind {f : α → ExceptT Failure (StateM Observed) β} (hx : Writes files x)
    (hf : ∀ a, Writes files (f a)) : Writes files (x >>= f) := by
  obtain ⟨a, out, err, hx⟩ := hx
  obtain ⟨b, out', err', hf⟩ := hf a
  exact ⟨b, out ++ out', err ++ err', hx.bind hf⟩

theorem print (text : String) : Writes files (Observed.host.print text) :=
  ⟨(), _, .empty, Does.print text⟩

theorem say (text : String) : Writes files (Observed.host.say text) :=
  ⟨(), .empty, _, Does.say text⟩

theorem scan (search : Search) (path : Path) :
    Writes files (liftM (Collaborators.engine search path)) :=
  ⟨search path, .empty, .empty, Does.scan search path⟩

theorem isKept (files : FileTree) :
    Run.IsKept Observed.host fun _ x => Writes files x where
  pure := pure
  bind := bind
  print := print
  say := say

variable (c : Collaborators)

/-- All that is done with an image, when no resources are to be saved. -/
theorem analyze (h : c.options.extractTo = none) (files : FileTree)
    {target : Target (StateM Observed)} (htarget : target.IsInMemory) :
    Writes files (c.run.analyze c.engines target) := by
  have hkept : Run.IsKept c.run.host fun _ x => Writes files x := isKept files
  exact hkept.analyze h (Option.forall_mem_map.2 fun search _ => scan search)
    (Option.forall_mem_map.2 fun search _ => scan search) htarget

end Writes

end ImageTriage.Batch
