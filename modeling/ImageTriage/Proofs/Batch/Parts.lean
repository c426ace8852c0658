import ImageTriage.Batch.Run

/-!
# What is done with an image

When no resources are to be saved, and no view of the target fails on reading or writing
(`Target.IsInMemory`), all that is done with it is to write to the two streams and to ask the
engines. What holds of each such step, and of parts of a run that follow each other when it holds of
both, holds of the whole (`IsKept.analyze`). When resources are to be saved, it must hold of saving
them as well (`IsKept.analyze_of_extract`).
-/

namespace ImageTriage

/-! ## Targets in memory -/

/-- No view of the target fails because something could not be read or written. -/
def Target.IsInMemory {m : Type → Type} (target : Target m) : Prop :=
  ∀ view reason, (target.render view).failure? ≠ some (.io reason)

namespace Rendering

variable {α : Type} {title : String} {table : Except Fault α} {lines : α → List String}
  {reason : String}

theorem failure?_ofTable_ne_io : (ofTable title table lines).failure? ≠ some (.io reason) := by
  cases table <;> simp [ofTable, ofBlock]

theorem failure?_underHeading_ne_io :
    (underHeading title table lines).failure? ≠ some (.io reason) := by
  cases table <;> simp [underHeading, ofBlock]

end Rendering

section

variable [Sniffer]

/-- Of an image only its tables fail. -/
theorem Image.failure?_render_ne_io (image : Image) (view : View) (reason : String) :
    (image.render view).failure? ≠ some (.io reason) := by
  cases view with
  | summary | hashes => exact fun h => nomatch h
  | category c withHashes =>
    cases c with
    | dos | pe | opt | sections => exact fun h => nomatch h
    | version | tls => exact Rendering.failure?_underHeading_ne_io
    | imports | exports | resources | debug | relocations | certificates =>
      exact Rendering.failure?_ofTable_ne_io

/-- What bytes are parsed to is the target of an image. -/
theorem Target.eq_ofImage_of_ofBytes {m : Type → Type} [Monad m] {host : Host m} {limits : Limits}
    {path : Path} {data : Bytes} {target : Target m}
    (h : Target.ofBytes host limits path data = .ok target) :
    ∃ image, target = Target.ofImage host path image := by
  rw [Target.ofBytes] at h
  split at h
  · next image _ => exact ⟨image, (Except.ok.inj h).symm⟩
  · cases h

theorem Target.isInMemory_ofImage {m : Type → Type} [Monad m] (host : Host m) (path : Path)
    (image : Image) : (Target.ofImage host path image).IsInMemory :=
  image.failure?_render_ne_io

end

/-! ## Steps that follow each other -/

namespace Run

variable {m : Type → Type} [Monad m]

/-- A property of single writes that is kept when parts of a run follow each other. -/
structure IsKept (host : Host m) (P : (α : Type) → ExceptT Failure m α → Prop) : Prop where
  pure : ∀ {α : Type} (a : α), P α (Pure.pure a)
  bind : ∀ {α β : Type} {x : ExceptT Failure m α} {f : α → ExceptT Failure m β},
    P α x → (∀ a, P β (f a)) → P β (x >>= f)
  print : ∀ text : String, P Unit (host.print text)
  say : ∀ text : String, P Unit (host.say text)

namespace IsKept

variable {host : Host m} {P : (α : Type) → ExceptT Failure m α → Prop}

theorem discard (hP : IsKept host P) {α : Type} {x : ExceptT Failure m α} (hx : P α x) :
    P PUnit (Functor.discard x) := by
  have hbind : Functor.discard x = x >>= fun _ => Pure.pure PUnit.unit := by
    refine congrArg ExceptT.mk (congrArg (x.run >>= ·) (funext fun answer => ?_))
    cases answer <;> rfl
  rw [hbind]
  exact hP.bind hx fun _ => hP.pure _

theorem showView (hP : IsKept host P) {target : Target m} (htarget : target.IsInMemory)
    (view : View) : P Bool (Run.showView host target view) := by
  refine hP.bind (hP.print _) fun _ => ?_
  split
  · exact hP.pure true
  · next reason hio => exact absurd hio (htarget view reason)
  · exact hP.bind (hP.say _) fun _ => hP.pure false

theorem showCategories (hP : IsKept host P) {target : Target m} (htarget : target.IsInMemory)
    (withHashes : Bool) (cs : List Category) :
    P Nat (Run.showCategories host target withHashes cs) := by
  induction cs with
  | nil => exact hP.pure 0
  | cons c rest ih => exact hP.bind (hP.showView htarget _) fun _ => hP.bind ih fun _ => hP.pure _

variable {run : Run m}

theorem listMatches (hP : IsKept run.host P) (kind : EngineKind) {engine? : Option (Engine m)}
    {path : Path} (hscan : ∀ engine ∈ engine?, P _ (liftM (engine path))) :
    P Unit (run.listMatches kind engine? path) := by
  cases engine? with
  | none => exact hP.pure ()
  | some engine => exact hP.bind (hscan engine rfl) fun _ => hP.print _

/-- Of the resources it need be known only that saving them has the property too. -/
theorem analyze_of_extract (hP : IsKept run.host P) {engines : Engines m} {target : Target m}
    (htarget : target.IsInMemory)
    (hextract : ∀ directory ∈ run.options.extractTo, P Unit (run.extract target directory))
    (hpacker : ∀ engine ∈ engines.packer, P _ (liftM (engine target.path)))
    (hmalware : ∀ engine ∈ engines.malware, P _ (liftM (engine target.path))) :
    P Unit (run.analyze engines target) := by
  have hlists : P Unit (do
      run.listMatches .packer engines.packer target.path
      run.listMatches .malware engines.malware target.path) :=
    hP.bind (hP.listMatches .packer hpacker) fun _ => hP.listMatches .malware hmalware
  have hhashes : P Unit (do
      if run.options.hashes then
        Functor.discard (Run.showView run.host target .hashes)
      run.listMatches .packer engines.packer target.path
      run.listMatches .malware engines.malware target.path) := by
    by_cases hhashes : run.options.hashes
    · rw [if_pos hhashes]
      exact hP.bind (hP.discard (hP.showView htarget .hashes)) fun _ => hlists
    · rw [if_neg hhashes]
      exact hlists
  cases hdirectory : run.options.extractTo with
  | none =>
    simp only [Run.analyze, hdirectory]
    split
    · exact hP.bind (hP.discard (hP.showCategories htarget _ _)) fun _ => hhashes
    · exact hP.bind (hP.discard (hP.showView htarget .summary)) fun _ => hhashes
  | some directory =>
    have hrest : P Unit (do
        run.extract target directory
        if run.options.hashes then
          Functor.discard (Run.showView run.host target .hashes)
        run.listMatches .packer engines.packer target.path
        run.listMatches .malware engines.malware target.path) :=
      hP.bind (hextract directory hdirectory) fun _ => hhashes
    simp only [Run.analyze, hdirectory]
    split
    · exact hP.bind (hP.discard (hP.showCategories htarget _ _)) fun _ => hrest
    · exact hP.bind (hP.discard (hP.showView htarget .summary)) fun _ => hrest

theorem analyze (hP : IsKept run.host P) (hextract : run.options.extractTo = none)
    {engines : Engines m} (hpacker : ∀ engine ∈ engines.packer, ∀ path, P _ (liftM (engine path)))
    (hmalware : ∀ engine ∈ engines.malware, ∀ path, P _ (liftM (engine path)))
    {target : Target m} (htarget : target.IsInMemory) : P Unit (run.analyze engines target) :=
  hP.analyze_of_extract htarget (by simp [hextract])
    (fun engine hengine => hpacker engine hengine _)
    fun engine hengine => hmalware engine hengine _

end IsKept

end Run

end ImageTriage
