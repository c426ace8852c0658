import ImageTriage.Proofs.Bytes.Reading
import ImageTriage.Proofs.Checked.Sections
import ImageTriage.Section.Mapping

/-!
# Checked texts and addresses

The length of a text is not known before it is read: a reader cuts out as many bytes as there may
be, up to the end of the file, and then cuts off what follows the text. Neither cut may go too far.
Where an address leads, is the affair of the section table.
-/

namespace ImageTriage

namespace Checked

variable {b : Bytes} {i bound : Nat}

/-! ## Texts -/

/-- The bytes from offset `i` to offset `j`, if they are in the file. -/
def range? (b : Bytes) (i j : Nat) : Option Bytes :=
  if i ≤ j ∧ j ≤ b.size then some (b.extract i j) else none

/-- `Bytes.cstring?` with checked steps. -/
def cstring? (b : Bytes) (i bound : Nat) : Checked (Option String) :=
  match range? b i (min (addSaturating i bound) b.size) with
  | none => pure none
  | some piece => do
    let text ← cut piece 0 (piece.zeroFree 0 piece.size)
    return String.fromUTF8? text

/-- `Bytes.utf16z` with checked steps. -/
def utf16z (b : Bytes) (i bound : Nat) : Checked (String × Nat) :=
  let stop := min (addSaturating i (min (2 * bound) (wordSize - 1))) b.size
  if stop ≤ i then fail (.badOffset i)
  else do
    let piece ← cut b i stop
    let units := Bytes.units piece 0 (piece.size / 2)
    let text := units.takeWhile (· != 0)
    match Utf16.decode? text with
    | some s => return (s, ← mul 2 (min (text.length + 1) units.length))
    | none => fail .textEncoding

section Texts

variable (hb : b.size < 2 ^ 62)
include hb

theorem range?_eq {n : Nat} : range? b i (addSaturating i n) = b.slice? i n := by
  unfold range? Bytes.slice? addSaturating wordSize
  by_cases hfit : i + n ≤ b.size
  · have hstop : min (i + n) (2 ^ 64 - 1) = i + n := by omega
    rw [hstop, if_pos ⟨Nat.le_add_right i n, hfit⟩, if_pos hfit]
  · have hout : ¬ min (i + n) (2 ^ 64 - 1) ≤ b.size := by omega
    rw [if_neg (mt And.right hout), if_neg hfit]

theorem cstring?_eq : cstring? b i bound = done (.ok (b.cstring? i bound)) := by
  have hstop : min (addSaturating i bound) b.size = min (i + bound) b.size := by
    unfold addSaturating wordSize
    omega
  rw [cstring?, hstop, range?, Bytes.cstring?]
  by_cases hi : i ≤ b.size
  · have hpiece : (b.extract i (min (i + bound) b.size)).size = min bound (b.size - i) := by
      rw [ByteArray.size_extract]
      omega
    have htext : Bytes.zeroFree (b.extract i (min (i + bound) b.size)) 0 (min bound (b.size - i)) =
        b.zeroFree i (min bound (b.size - i)) := by
      rw [Bytes.zeroFree_extract (by omega) (by omega), Nat.add_zero]
    have hlength := Bytes.zeroFree_le b i (min bound (b.size - i))
    rw [if_pos (by omega), if_pos hi]
    dsimp only
    rw [hpiece, htext, cut_eq (Nat.zero_le _) (by omega), ok_bind, ByteArray.extract_extract]
    have hend : min (i + b.zeroFree i (min bound (b.size - i))) (min (i + bound) b.size) =
        i + b.zeroFree i (min bound (b.size - i)) := by
      omega
    rw [hend]
    rfl
  · rw [if_neg (by omega), if_neg hi]
    rfl

theorem utf16z_eq (hbound : 0 < bound) : utf16z b i bound = done (b.utf16z i bound) := by
  have hstop : min (addSaturating i (min (2 * bound) (wordSize - 1))) b.size =
      min (i + 2 * bound) b.size := by
    unfold addSaturating wordSize
    omega
  rw [utf16z, hstop, Bytes.utf16z]
  by_cases hi : b.size ≤ i
  · rw [if_pos (by omega), if_pos (.inl hi)]
    rfl
  · have hpiece : (b.extract i (min (i + 2 * bound) b.size)).size / 2 =
        min bound ((b.size - i) / 2) := by
      rw [ByteArray.size_extract]
      omega
    have hunits : Bytes.units (b.extract i (min (i + 2 * bound) b.size)) 0
        (min bound ((b.size - i) / 2)) = b.units i (min bound ((b.size - i) / 2)) := by
      rw [Bytes.units_extract (by omega) (by omega), Nat.add_zero]
    have hlength := Bytes.length_units_le b i (min bound ((b.size - i) / 2))
    rw [if_neg (by omega), if_neg (by omega), cut_eq (by omega) (by omega), ok_bind, hpiece, hunits]
    dsimp only
    rw [mul_eq (by omega)]
    generalize Utf16.decode? _ = decoded
    cases decoded <;> rfl

end Texts

/-! ## Addresses -/

/-- A file with its addresses, as it is stored. -/
structure Mapped where
  file : Bytes
  sections : Sections
  imageBase : UInt64
  wide : Bool

namespace Mapped

/-- What is stored for a file with its addresses. -/
def of (m : MappedFile) : Mapped where
  file := m.file
  sections := .of m.sections
  imageBase := m.imageBase
  wide := m.wide

/-- The file offset of an address. -/
def offset (m : Mapped) (address : UInt32) : Checked Nat := do
  match ← m.sections.offset? address with
  | some i => return i
  | none => fail (.unmappedAddress address)

/-- The text at an address, at most `bound` bytes of it. -/
def cstring? (m : Mapped) (address : UInt32) (bound : Nat) : Checked (Option String) := do
  match ← m.sections.offset? address with
  | some i => Checked.cstring? m.file i bound
  | none => return none

/-- The text at an address, at most `bound` bytes of it, or the fault that it has none. -/
def cstring (m : Mapped) (address : UInt32) (bound : Nat) : Checked String := do
  let i ← m.offset address
  orFault .textEncoding (← Checked.cstring? m.file i bound)

/-- The number of bytes of an absolute address. -/
def pointerSize (m : Mapped) : Nat := if m.wide then 8 else 4

/-- The absolute address stored at a file offset. -/
def pointer? (m : Mapped) (i : Nat) : Option UInt64 :=
  if m.wide then m.file.u64? i else (m.file.u32? i).map UInt32.toUInt64

section Stored

variable (m : MappedFile)

@[simp] theorem of_file : (of m).file = m.file := rfl

@[simp] theorem of_sections : (of m).sections = .of m.sections := rfl

@[simp] theorem of_imageBase : (of m).imageBase = m.imageBase := rfl

@[simp] theorem of_wide : (of m).wide = m.wide := rfl

@[simp] theorem of_pointerSize : (of m).pointerSize = m.pointerSize := rfl

@[simp] theorem of_pointer? (i : Nat) : (of m).pointer? i = m.pointer? i := rfl

end Stored

/-- A file that a machine can hold. -/
structure Fits (m : MappedFile) : Prop where
  file_lt : m.file.size < 2 ^ 62
  sections_lt : m.sections.byAddress.size < 2 ^ 64

variable {m : MappedFile} {address : UInt32}

section Fits

variable (hm : Fits m)
include hm

theorem offset_eq : (of m).offset address = done (m.offset address) := by
  unfold offset MappedFile.offset SectionTable.offset
  rw [of_sections, Sections.offset?_eq hm.sections_lt, ok_bind]
  cases m.sections.offset? address <;> rfl

theorem cstring?_eq : (of m).cstring? address bound = done (.ok (m.cstring? address bound)) := by
  unfold cstring? MappedFile.cstring?
  rw [of_sections, Sections.offset?_eq hm.sections_lt, ok_bind]
  cases m.sections.offset? address with
  | none => rfl
  | some i => exact Checked.cstring?_eq hm.file_lt

theorem cstring_eq : (of m).cstring address bound = done (m.cstring address bound) := by
  unfold cstring MappedFile.cstring
  rw [offset_eq hm]
  refine bind_eq fun i _ => ?_
  rw [of_file, Checked.cstring?_eq hm.file_lt, ok_bind]
  rfl

end Fits

theorem lt_of_offset {i : Nat} (hi : m.offset address = .ok i) : i < 2 ^ 33 :=
  Sections.lt_of_offset? (orFault_eq_ok_iff.1 hi)

theorem fits_of_pointer? {v : UInt64} (h : m.pointer? i = some v) :
    i + m.pointerSize ≤ m.file.size := by
  unfold MappedFile.pointer? at h
  unfold MappedFile.pointerSize
  split at h
  · next hwide =>
    rw [if_pos hwide]
    exact Bytes.fits_of_u64? h
  · next hnarrow =>
    obtain ⟨w, hw, -⟩ := Option.map_eq_some_iff.1 h
    rw [if_neg hnarrow]
    exact Bytes.fits_of_u32? hw

theorem pointerSize_pos (m : MappedFile) : 4 ≤ m.pointerSize := by
  unfold MappedFile.pointerSize
  split <;> omega

theorem pointerSize_le (m : MappedFile) : m.pointerSize ≤ 8 := by
  unfold MappedFile.pointerSize
  split <;> omega

end Mapped

end Checked

end ImageTriage
