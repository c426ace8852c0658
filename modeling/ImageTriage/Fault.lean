import ImageTriage.Text.Numeral

/-!
# What can be wrong with an image

A `Fault` is a cause: which structure of the file could not be read, and the numbers a reader of the
report needs. `Fault.message` is the wording, in one place.
-/

namespace ImageTriage

/-- Why an image, or one of its directories, could not be read. -/
inductive Fault where
  /-- The file does not begin with `MZ`. -/
  | dosSignature
  /-- The DOS header does not lead to `PE\0\0`. -/
  | peSignature
  /-- The optional header is of neither known layout. -/
  | optionalMagic (magic : UInt16)
  /-- A header would have to reach `expected` bytes, and there are `actual`. -/
  | truncatedHeader (expected actual : Nat)
  /-- No section backs the address with file bytes. -/
  | unmappedAddress (address : UInt32)
  /-- Nothing can be read at the file offset. -/
  | badOffset (offset : Nat)
  | importTable
  | exportTable
  | resourceDirectory
  /-- The resource tree is deeper than the limit. -/
  | resourceDepth
  | versionInfo
  | debugDirectory
  | tlsDirectory
  | relocations
  | certificateTable
  /-- The image has no directory slot of this number. -/
  | absentDirectory (index : Nat)
  /-- There are more of these than the limit. -/
  | tooMany (what : String)
  /-- Bytes that should be text are not. -/
  | textEncoding
  /-- The file itself could not be read. -/
  | io (reason : String)
  deriving DecidableEq, Repr, Inhabited

namespace Fault

/-- The wording of a fault. -/
def message : Fault → String
  | dosSignature => "Invalid DOS signature"
  | peSignature => "Invalid PE signature"
  | optionalMagic magic => "Invalid optional header magic: " ++ Text.hexMarked 4 magic.toNat
  | truncatedHeader expected actual =>
    "Truncated header: expected " ++ toString expected ++ " bytes, got " ++ toString actual
  | unmappedAddress address => "Invalid RVA: " ++ Text.hexMarked 8 address.toNat
  | badOffset offset => "Invalid file offset: " ++ Text.hexMarked 0 offset
  | importTable => "Malformed import table"
  | exportTable => "Malformed export table"
  | resourceDirectory => "Malformed resource directory"
  | resourceDepth => "Resource directory nested too deeply"
  | versionInfo => "Malformed version information"
  | debugDirectory => "Malformed debug directory"
  | tlsDirectory => "Malformed TLS directory"
  | relocations => "Malformed base relocation table"
  | certificateTable => "Malformed certificate table"
  | absentDirectory index => "Data directory " ++ toString index ++ " is absent"
  | tooMany what => "Too many " ++ what
  | textEncoding => "Invalid string encoding"
  | io reason => "I/O error: " ++ reason

end Fault

/-- The answer, or the fault that its absence means. -/
def orFault {α : Type} (fault : Fault) : Option α → Except Fault α
  | some a => .ok a
  | none => .error fault

@[simp] theorem orFault_some {α : Type} (fault : Fault) (a : α) :
    orFault fault (some a) = .ok a := rfl

@[simp] theorem orFault_none {α : Type} (fault : Fault) :
    orFault fault (none : Option α) = .error fault := rfl

theorem orFault_eq_ok_iff {α : Type} {fault : Fault} {o : Option α} {a : α} :
    orFault fault o = .ok a ↔ o = some a := by
  cases o <;> simp

/-! ## Reading one thing after another -/

section Sequence

variable {α β : Type}

@[simp] theorem ok_bind (a : α) (f : α → Except Fault β) : (Except.ok a >>= f) = f a := rfl

@[simp] theorem error_bind (fault : Fault) (f : α → Except Fault β) :
    (Except.error fault >>= f) = .error fault := rfl

@[simp] theorem pure_eq_ok (a : α) : (pure a : Except Fault α) = .ok a := rfl

@[simp] theorem throw_eq_error (fault : Fault) : (throw fault : Except Fault α) = .error fault :=
  rfl

theorem bind_eq_ok_iff {x : Except Fault α} {f : α → Except Fault β} {b : β} :
    (x >>= f) = .ok b ↔ ∃ a, x = .ok a ∧ f a = .ok b := by
  cases x <;> simp

theorem map_eq_ok_iff {x : Except Fault α} {f : α → β} {b : β} :
    x.map f = .ok b ↔ ∃ a, x = .ok a ∧ f a = b := by
  cases x <;> simp [Except.map]

theorem exists_ok_of_any {x : Except Fault α} {p : α → Bool} (h : x.toOption.any p = true) :
    ∃ a, x = .ok a ∧ p a = true := by
  cases x with
  | ok a => exact ⟨a, rfl, h⟩
  | error => cases h

theorem mapM_eq_ok {f : α → Except Fault β} {g : α → β} {as : List α}
    (h : ∀ a ∈ as, f a = .ok (g a)) : as.mapM f = .ok (as.map g) := by
  induction as with
  | nil => rfl
  | cons a as ih =>
    rw [List.mapM_cons, h a (by simp), ih fun x hx => h x (by simp [hx])]
    rfl

theorem length_of_mapM {f : α → Except Fault β} {as : List α} {bs : List β}
    (h : as.mapM f = .ok bs) : bs.length = as.length := by
  induction as generalizing bs with
  | nil =>
    cases h
    rfl
  | cons a as ih =>
    rw [List.mapM_cons] at h
    obtain ⟨b, -, h⟩ := bind_eq_ok_iff.1 h
    obtain ⟨rest, hrest, h⟩ := bind_eq_ok_iff.1 h
    cases h
    rw [List.length_cons, List.length_cons, ih hrest]

theorem exists_of_mem_mapM {f : α → Except Fault β} {as : List α} {bs : List β} {b : β}
    (h : as.mapM f = .ok bs) (hb : b ∈ bs) : ∃ a ∈ as, f a = .ok b := by
  induction as generalizing bs with
  | nil =>
    cases h
    cases hb
  | cons a as ih =>
    rw [List.mapM_cons] at h
    obtain ⟨first, hfirst, h⟩ := bind_eq_ok_iff.1 h
    obtain ⟨rest, hrest, h⟩ := bind_eq_ok_iff.1 h
    cases h
    rcases List.mem_cons.1 hb with rfl | hb
    · exact ⟨a, by simp, hfirst⟩
    · obtain ⟨x, hx, hb⟩ := ih hrest hb
      exact ⟨x, List.mem_cons_of_mem a hx, hb⟩

/-- The first fault is the fault of all. -/
theorem mapM_eq_error {f : α → Except Fault β} {g : α → β} {as bs : List α} {a : α} {fault : Fault}
    (h : ∀ x ∈ as, f x = .ok (g x)) (ha : f a = .error fault) :
    (as ++ a :: bs).mapM f = .error fault := by
  rw [List.mapM_append, mapM_eq_ok h, List.mapM_cons, ha]
  rfl

end Sequence

end ImageTriage
