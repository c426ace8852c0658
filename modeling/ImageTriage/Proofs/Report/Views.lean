import ImageTriage.Proofs.Batch.Parts
import ImageTriage.Proofs.Batch.Streams

/-!
# What showing views writes

In a world with open streams, showing a view of a target writes its text to the report, and the line
of its failure, if there is one, to the diagnostics. Showing categories does so for one after the
other, whichever of them fail (`run_showCategories_target`).
-/

namespace ImageTriage

/-- The line of diagnostics for a view of a target; none when it does not fail. -/
def Target.failureLine? {m : Type → Type} (target : Target m) (view : View) : Option String :=
  (target.render view).failure?.map (Run.failureLine (Run.doing view) target.path)

namespace Run

variable {w : World} {target : Target (StateM World)} (htarget : target.IsInMemory)
include htarget

/-- One view: its text goes to the report, and a failure is told. -/
theorem run_showView_target (hw : w.IsOpen) (view : View) :
    (showView World.host target view).run.run w =
      (.ok (target.failureLine? view).isNone,
        w.wrote (target.render view).text.toUTF8
          ((target.failureLine? view).getD "").toUTF8) := by
  have hprint := World.print_of_isOpen hw (target.render view).text
  rw [showView, run_bind_eq hprint, Target.failureLine?]
  split
  · next hnone =>
    rw [hnone]
    rfl
  · next reason hio => exact absurd hio (htarget view reason)
  · next failure _ hsome =>
    have hsay := World.say_of_isOpen (hw.wrote (target.render view).text.toUTF8 .empty)
      (failureLine (doing view) target.path failure)
    rw [World.wrote_wrote, ByteArray.append_empty, ByteArray.empty_append] at hsay
    rw [hsome]
    exact run_bind_eq hsay

/-- Categories: their texts go to the report and their failures are told, in order. -/
theorem run_showCategories_target (hw : w.IsOpen) (withHashes : Bool) (cs : List Category) :
    (showCategories World.host target withHashes cs).run.run w =
      (.ok (cs.filterMap fun c => target.failureLine? (.category c withHashes)).length,
        w.wrote (String.join (cs.map fun c => (target.render (.category c withHashes)).text)).toUTF8
          (String.join (cs.filterMap fun c =>
            target.failureLine? (.category c withHashes))).toUTF8) := by
  induction cs generalizing w with
  | nil => exact congrArg _ w.wrote_nothing.symm
  | cons c rest ih =>
    have hview := run_showView_target htarget hw (.category c withHashes)
    rw [showCategories, run_bind_eq hview, run_bind_eq (ih (hw.wrote _ _)), World.wrote_wrote,
      List.map_cons, List.filterMap_cons, String.join_cons]
    change (Except.ok ((if _ then 0 else 1) + _), _) = _
    cases target.failureLine? (.category c withHashes) with
    | none => simp
    | some line => simp [Nat.add_comm]

end Run

end ImageTriage
