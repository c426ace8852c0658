import ImageTriage.Batch.Host

/-!
# Writing to streams

A stream with room for so many bytes takes what fits of a text. In a world whose streams have any
room (`IsOpen`), writing never fails, and a text stands after what was written before (`wrote`).
-/

namespace ImageTriage

/-! ## One step after another -/

section Steps

variable {σ α β : Type} {s s' : σ} {a : α}

/-- One step after another, neither of which can fail. -/
theorem run_step {x : StateM σ α} {f : α → StateM σ β} (h : x.run s = (a, s')) :
    (x >>= f).run s = (f a).run s' := by
  rw [StateT.run_bind, h]
  rfl

theorem run_lift_eq {y : StateM σ α} (h : y.run s = (a, s')) :
    (ExceptT.lift y : ExceptT Failure (StateM σ) α).run.run s = (.ok a, s') := by
  rw [ExceptT.run_lift, StateT.run_map, h]
  rfl

theorem run_bind_eq {x : ExceptT Failure (StateM σ) α} {f : α → ExceptT Failure (StateM σ) β}
    (h : x.run.run s = (.ok a, s')) : (x >>= f).run.run s = (f a).run.run s' := by
  rw [ExceptT.run_bind, StateT.run_bind, h]
  rfl

theorem run_bind_error {x : ExceptT Failure (StateM σ) α} {f : α → ExceptT Failure (StateM σ) β}
    {failure : Failure} (h : x.run.run s = (.error failure, s')) :
    (x >>= f).run.run s = (.error failure, s') := by
  rw [ExceptT.run_bind, StateT.run_bind, h]
  rfl

variable {host : Host (StateM σ)} {text : String}

theorem Host.run_print (h : (host.writeOut text).run s = (.ok (), s')) :
    (host.print text).run.run s = (.ok (), s') :=
  run_bind_eq (run_lift_eq h)

theorem Host.run_say (h : (host.writeErr text).run s = (.ok (), s')) :
    (host.say text).run.run s = (.ok (), s') :=
  run_bind_eq (run_lift_eq h)

/-- A report that cannot be written ends the run. -/
theorem Host.run_print_error {reason : String}
    (h : (host.writeOut text).run s = (.error reason, s')) :
    (host.print text).run.run s = (.error (.io reason), s') :=
  run_bind_eq (run_lift_eq h)

end Steps

/-! ## Streams with little room -/

namespace Stream

variable {s : Stream} {room : Nat} {text : String}

theorem write_of_fits (h : s.room = some room) (hfits : text.toUTF8.size ≤ room) :
    s.write text = (.ok (), { written := s.written ++ text.toUTF8,
                              room := some (room - text.toUTF8.size) }) := by
  rw [write, h]
  exact if_pos hfits

/-- A text that does not fit is written as far as it fits. -/
theorem write_of_full (h : s.room = some room) (hlong : room < text.toUTF8.size) :
    s.write text = (.error full, { written := s.written ++ text.toUTF8.extract 0 room,
                                   room := some 0 }) := by
  rw [write, h]
  exact if_neg (Nat.not_le_of_lt hlong)

end Stream

/-! ## Open streams -/

namespace World

/-- Both streams take all that is written. -/
structure IsOpen (w : World) : Prop where
  out_open : w.out.room = none
  err_open : w.err.room = none

/-- The world after more was written to its streams. -/
def wrote (w : World) (out err : Bytes) : World where
  files := w.files
  out := { w.out with written := w.out.written ++ out }
  err := { w.err with written := w.err.written ++ err }
  journal := w.journal

variable {w : World}

theorem IsOpen.wrote (hw : w.IsOpen) (out err : Bytes) : (w.wrote out err).IsOpen :=
  ⟨hw.out_open, hw.err_open⟩

theorem wrote_wrote (w : World) (out err out' err' : Bytes) :
    (w.wrote out err).wrote out' err' = w.wrote (out ++ out') (err ++ err') := by
  simp [World.wrote, ByteArray.append_assoc]

@[simp] theorem wrote_nothing (w : World) : w.wrote .empty .empty = w := by
  simp [World.wrote]

theorem writeOut_of_isOpen (hw : w.IsOpen) (text : String) :
    w.writeOut text = (.ok (), w.wrote text.toUTF8 .empty) := by
  rw [writeOut, Stream.write_of_open hw.out_open]
  simp [World.wrote]

theorem writeErr_of_isOpen (hw : w.IsOpen) (text : String) :
    w.writeErr text = (.ok (), w.wrote .empty text.toUTF8) := by
  rw [writeErr, Stream.write_of_open hw.err_open]
  simp [World.wrote]

theorem print_of_isOpen (hw : w.IsOpen) (text : String) :
    (host.print text).run.run w = (.ok (), w.wrote text.toUTF8 .empty) :=
  Host.run_print (writeOut_of_isOpen hw text)

theorem say_of_isOpen (hw : w.IsOpen) (text : String) :
    (host.say text).run.run w = (.ok (), w.wrote .empty text.toUTF8) :=
  Host.run_say (writeErr_of_isOpen hw text)

end World

end ImageTriage
