import ImageTriage.Proofs.Bytes.Layout

/-!
# Records of fields

A record is a row of fields, each as wide as its kind says. Where the bytes of a row stand in a
file, every field is read at the offset that the fields before it leave it (`readsAll_of_holds`).
The offsets follow from the widths, so that no two fields of a row can overlap.
-/

namespace ImageTriage

open Bytes

/-- A field of a record, with what is written in it. -/
inductive HeaderField where
  | u8 (v : UInt8)
  | u16 (v : UInt16)
  | u32 (v : UInt32)
  | u64 (v : UInt64)
  /-- Bytes that are no number. -/
  | raw (xs : List UInt8)

namespace HeaderField

/-- The bytes of a field. -/
def bytes : HeaderField → List UInt8
  | u8 v => [v]
  | u16 v => leBytes 2 v.toNat
  | u32 v => leBytes 4 v.toNat
  | u64 v => leBytes 8 v.toNat
  | raw xs => xs

/-- The width of a field. -/
def width : HeaderField → Nat
  | u8 _ => 1
  | u16 _ => 2
  | u32 _ => 4
  | u64 _ => 8
  | raw xs => xs.length

/-- A reader of the field's kind finds what was written. -/
def Reads (b : Bytes) (i : Nat) : HeaderField → Prop
  | u8 v => b.u8? i = some v
  | u16 v => b.u16? i = some v
  | u32 v => b.u32? i = some v
  | u64 v => b.u64? i = some v
  | raw xs => b.Holds i xs

/-- The bytes of a row. -/
def rowBytes (fs : List HeaderField) : List UInt8 := fs.flatMap bytes

/-- The width of a row. -/
def rowWidth (fs : List HeaderField) : Nat := (fs.map width).sum

/-- Every field of a row that begins at offset `i` is found, each behind those before it. -/
def ReadsAll (b : Bytes) : Nat → List HeaderField → Prop
  | _, [] => True
  | i, f :: fs => f.Reads b i ∧ ReadsAll b (i + f.width) fs

variable {b : Bytes} {i : Nat} {f : HeaderField} {fs : List HeaderField}

@[simp] theorem length_bytes (f : HeaderField) : f.bytes.length = f.width := by
  cases f with
  | u8 v => rfl
  | raw xs => rfl
  | u16 v => exact length_leBytes 2 _
  | u32 v => exact length_leBytes 4 _
  | u64 v => exact length_leBytes 8 _

theorem length_rowBytes (fs : List HeaderField) : (rowBytes fs).length = rowWidth fs := by
  simp [rowBytes, rowWidth, List.length_flatMap]

theorem reads_of_holds (h : b.Holds i f.bytes) : f.Reads b i := by
  cases f with
  | u8 v => exact h.1
  | u16 v => exact h.u16?
  | u32 v => exact h.u32?
  | u64 v => exact h.u64?
  | raw xs => exact h

theorem readsAll_of_holds (h : b.Holds i (rowBytes fs)) : ReadsAll b i fs := by
  induction fs generalizing i with
  | nil => trivial
  | cons f fs ih =>
    rw [rowBytes, List.flatMap_cons] at h
    have hrest := h.right
    rw [length_bytes] at hrest
    exact ⟨reads_of_holds h.left, ih hrest⟩

end HeaderField

end ImageTriage
