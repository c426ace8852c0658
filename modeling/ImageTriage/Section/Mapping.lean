import ImageTriage.Section.Table
import ImageTriage.Text.Utf8

/-!
# A file and its addresses

The tables of an image refer to each other by address. A `MappedFile` is what a reader of a table
needs: the bytes, the sections that place them, and the width and origin of absolute addresses.
-/

namespace ImageTriage

/-- The bytes of an image with the addresses they are loaded at. -/
structure MappedFile where
  file : Bytes
  sections : SectionTable
  /-- Where the image wants to be loaded. -/
  imageBase : UInt64 := 0
  /-- Whether absolute addresses have 64 bits. -/
  wide : Bool := false

namespace MappedFile

/-- The file offset of an address. -/
def offset (m : MappedFile) (address : UInt32) : Except Fault Nat := m.sections.offset address

/-- The text at an address, at most `bound` bytes of it. -/
def cstring? (m : MappedFile) (address : UInt32) (bound : Nat) : Option String := do
  let i ← m.sections.offset? address
  m.file.cstring? i bound

/-- The text at an address, at most `bound` bytes of it, or the fault that it has none. -/
def cstring (m : MappedFile) (address : UInt32) (bound : Nat) : Except Fault String := do
  let i ← m.offset address
  m.file.cstring i bound

/-- The number of bytes of an absolute address. -/
def pointerSize (m : MappedFile) : Nat := if m.wide then 8 else 4

/-- The absolute address stored at a file offset. -/
def pointer? (m : MappedFile) (i : Nat) : Option UInt64 :=
  if m.wide then m.file.u64? i else (m.file.u32? i).map UInt32.toUInt64

/-- Puts the absolute addresses stored from a file offset on behind those of `found`, which is kept
in reverse: at most `limit` of them, before the first zero and the end of the file. -/
def collectPointers (m : MappedFile) : Nat → Nat → List UInt64 → List UInt64
  | 0, _, found => found.reverse
  | limit + 1, i, found =>
    match m.pointer? i with
    | none => found.reverse
    | some address =>
      if address = 0 then found.reverse
      else collectPointers m limit (i + m.pointerSize) (address :: found)

/-- The absolute addresses stored from a file offset on: at most `limit` of them, before the first
zero and the end of the file. -/
def pointers (m : MappedFile) (i limit : Nat) : List UInt64 := m.collectPointers limit i []

theorem offset_eq_ok {m : MappedFile} {address : UInt32} {i : Nat}
    (h : m.sections.offset? address = some i) : m.offset address = .ok i := by
  rw [offset, SectionTable.offset, h, orFault_some]

theorem collectPointers_eq (m : MappedFile) (limit i : Nat) (found : List UInt64) :
    m.collectPointers limit i found = found.reverse ++ m.pointers i limit := by
  induction limit generalizing i found with
  | zero => simp [pointers, collectPointers]
  | succ limit ih =>
    unfold pointers collectPointers
    cases m.pointer? i with
    | none => simp
    | some address =>
      by_cases h : address = 0
      · simp [h]
      · simp [h, ih _ (address :: found), ih _ [address]]

@[simp] theorem pointers_zero (m : MappedFile) (i : Nat) : m.pointers i 0 = [] := rfl

theorem pointers_of_none (m : MappedFile) {i : Nat} (limit : Nat) (h : m.pointer? i = none) :
    m.pointers i limit = [] := by
  cases limit <;> simp [pointers, collectPointers, h]

theorem pointers_of_zero (m : MappedFile) {i : Nat} (limit : Nat) (h : m.pointer? i = some 0) :
    m.pointers i limit = [] := by
  cases limit <;> simp [pointers, collectPointers, h]

theorem pointers_succ (m : MappedFile) {i : Nat} {address : UInt64} (limit : Nat)
    (h : m.pointer? i = some address) (hne : address ≠ 0) :
    m.pointers i (limit + 1) = address :: m.pointers (i + m.pointerSize) limit := by
  simp [pointers, collectPointers, h, hne, m.collectPointers_eq limit _ [address]]

theorem length_pointers_le (m : MappedFile) (i limit : Nat) :
    (m.pointers i limit).length ≤ limit := by
  induction limit generalizing i with
  | zero => simp
  | succ limit ih =>
    match h : m.pointer? i with
    | none => simp [m.pointers_of_none _ h]
    | some address =>
      by_cases hne : address = 0
      · simp [m.pointers_of_zero _ (hne ▸ h)]
      · simpa [m.pointers_succ limit h hne] using ih (i + m.pointerSize)

end MappedFile

end ImageTriage
