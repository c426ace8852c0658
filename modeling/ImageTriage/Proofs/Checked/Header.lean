import ImageTriage.Header.Dos
import ImageTriage.Header.Pe
import ImageTriage.Header.Section
import ImageTriage.Proofs.Checked.Basic

/-!
# Checked headers

The offset of a header field is the start of the header and the place of the field, and the fault of
a field that is not there names its end. Both are sums, and the second is taken even when the field
is there. The start is at most a 32-bit number and a few sizes of headers away from zero, so all of
them are words.
-/

namespace ImageTriage

namespace Checked

variable {α : Type} {b : Bytes} {start k : Nat}

/-! ## Fields -/

/-- The field of `width` bytes at offset `i`. -/
def field (width : Nat) (read : Bytes → Nat → Option α) (b : Bytes) (i : Nat) : Checked α := do
  let stop ← add i width
  orFault (.truncatedHeader stop b.size) (read b i)

/-- An 8-bit field at place `k` of a header. -/
def u8 (b : Bytes) (start k : Nat) : Checked UInt8 := do field 1 Bytes.u8? b (← add start k)

/-- A 16-bit field at place `k` of a header. -/
def u16 (b : Bytes) (start k : Nat) : Checked UInt16 := do field 2 Bytes.u16? b (← add start k)

/-- A 32-bit field at place `k` of a header. -/
def u32 (b : Bytes) (start k : Nat) : Checked UInt32 := do field 4 Bytes.u32? b (← add start k)

/-- A 64-bit field at place `k` of a header. -/
def u64 (b : Bytes) (start k : Nat) : Checked UInt64 := do field 8 Bytes.u64? b (← add start k)

theorem field_eq {width i : Nat} {read : Bytes → Nat → Option α} (h : i + width < 2 ^ 64) :
    field width read b i = done (orFault (.truncatedHeader (i + width) b.size) (read b i)) := by
  rw [field, add_eq h]
  rfl

theorem u8_eq (h : start + k + 1 < 2 ^ 64) : u8 b start k = done (Header.u8 b (start + k)) := by
  rw [u8, add_eq (by omega), ok_bind, field_eq h]
  rfl

theorem u16_eq (h : start + k + 2 < 2 ^ 64) : u16 b start k = done (Header.u16 b (start + k)) := by
  rw [u16, add_eq (by omega), ok_bind, field_eq h]
  rfl

theorem u32_eq (h : start + k + 4 < 2 ^ 64) : u32 b start k = done (Header.u32 b (start + k)) := by
  rw [u32, add_eq (by omega), ok_bind, field_eq h]
  rfl

theorem u64_eq (h : start + k + 8 < 2 ^ 64) : u64 b start k = done (Header.u64 b (start + k)) := by
  rw [u64, add_eq (by omega), ok_bind, field_eq h]
  rfl

/-! ## The DOS header -/

/-- `DosHeader.parse` with checked steps. -/
def dosHeader (b : Bytes) : Checked DosHeader := do
  if b.size < DosHeader.size then
    fail (.truncatedHeader DosHeader.size b.size)
  let magic ← u16 b 0 0
  if magic ≠ DosHeader.mark then
    fail .dosSignature
  return {
    magic
    lastPageBytes := ← u16 b 0 2
    pages := ← u16 b 0 4
    relocations := ← u16 b 0 6
    headerParagraphs := ← u16 b 0 8
    minParagraphs := ← u16 b 0 10
    maxParagraphs := ← u16 b 0 12
    stackSegment := ← u16 b 0 14
    stackPointer := ← u16 b 0 16
    checksum := ← u16 b 0 18
    instructionPointer := ← u16 b 0 20
    codeSegment := ← u16 b 0 22
    relocationTable := ← u16 b 0 24
    overlayNumber := ← u16 b 0 26
    oemId := ← u16 b 0 36
    oemInfo := ← u16 b 0 38
    headerOffset := ← u32 b 0 60 }

theorem dosHeader_eq : dosHeader b = done (DosHeader.parse b) := by
  unfold dosHeader DosHeader.parse
  simp (disch := omega) only [u16_eq, u32_eq, Nat.zero_add, fail_eq, pure_eq, bind_done, ite_done,
    throw_eq_error]
  rfl

/-! ## The COFF header -/

/-- `CoffHeader.parse` with checked steps. -/
def coffHeader (b : Bytes) (start : Nat) : Checked CoffHeader := do
  let stop ← add start CoffHeader.size
  if b.size < stop then
    fail (.truncatedHeader stop b.size)
  return {
    machine := .ofWord (← u16 b start 0)
    sectionCount := ← u16 b start 2
    timestamp := ← u32 b start 4
    symbolTable := ← u32 b start 8
    symbolCount := ← u32 b start 12
    optionalSize := ← u16 b start 16
    characteristics := ← u16 b start 18 }

theorem coffHeader_eq (h : start + 20 < 2 ^ 64) :
    coffHeader b start = done (CoffHeader.parse b start) := by
  unfold coffHeader CoffHeader.parse CoffHeader.size
  simp (disch := omega) only [add_eq, u16_eq, u32_eq, Nat.add_zero, fail_eq, pure_eq, bind_done,
    ite_done, throw_eq_error]
  rfl

/-! ## The optional header -/

/-- `OptionalHeader.sizeField` with checked steps. -/
def sizeField (b : Bytes) (start : Nat) (wide : Bool) (k : Nat) : Checked UInt64 :=
  if wide then u64 b start (72 + 8 * k)
  else (·.toUInt64) <$> u32 b start (72 + 4 * k)

/-- `OptionalHeader.parseFields` with checked steps. -/
def optionalFields (b : Bytes) (start : Nat) (layout : OptionalLayout) (imageBase : UInt64) :
    Checked OptionalHeader := do
  let wide := layout.is64Bit
  let tail ← add start (layout.fixedSize - 8)
  return {
    layout
    linkerMajor := ← u8 b start 2
    linkerMinor := ← u8 b start 3
    codeSize := ← u32 b start 4
    initializedSize := ← u32 b start 8
    uninitializedSize := ← u32 b start 12
    entryPoint := ← u32 b start 16
    codeBase := ← u32 b start 20
    imageBase
    sectionAlignment := ← u32 b start 32
    fileAlignment := ← u32 b start 36
    systemMajor := ← u16 b start 40
    systemMinor := ← u16 b start 42
    imageMajor := ← u16 b start 44
    imageMinor := ← u16 b start 46
    subsystemMajor := ← u16 b start 48
    subsystemMinor := ← u16 b start 50
    win32Version := ← u32 b start 52
    imageSize := ← u32 b start 56
    headersSize := ← u32 b start 60
    checksum := ← u32 b start OptionalHeader.checksumOffset
    subsystem := .ofWord (← u16 b start 68)
    characteristics := ← u16 b start 70
    stackReserve := ← sizeField b start wide 0
    stackCommit := ← sizeField b start wide 1
    heapReserve := ← sizeField b start wide 2
    heapCommit := ← sizeField b start wide 3
    loaderFlags := ← u32 b tail 0
    directoryCount := ← u32 b tail 4 }

/-- `OptionalHeader.parse` with checked steps. -/
def optionalHeader (b : Bytes) (start : Nat) (size : UInt16) : Checked OptionalHeader := do
  let size := size.toNat
  if size < 2 then
    fail (.truncatedHeader (← add start 2) b.size)
  else
    let stop ← add start size
    if b.size < stop then
      fail (.truncatedHeader stop b.size)
    else
      let magic ← u16 b start 0
      if magic = (OptionalLayout.pe32 0).magic then
        if size < 96 then
          fail (.truncatedHeader (← add start 96) stop)
        else
          let baseOfData ← u32 b start 24
          let imageBase ← u32 b start 28
          optionalFields b start (.pe32 baseOfData) imageBase.toUInt64
      else if magic = OptionalLayout.pe32Plus.magic then
        if size < 112 then
          fail (.truncatedHeader (← add start 112) stop)
        else
          let imageBase ← u64 b start 24
          optionalFields b start .pe32Plus imageBase
      else
        fail (.optionalMagic magic)

theorem sizeField_eq {wide : Bool} (h : start + 80 + 8 * k < 2 ^ 64) :
    sizeField b start wide k = done (OptionalHeader.sizeField b start wide k) := by
  unfold sizeField OptionalHeader.sizeField
  split
  · rw [u64_eq (by omega), Nat.add_assoc]
  · rw [u32_eq (by omega), Nat.add_assoc]
    cases Header.u32 b (start + (72 + 4 * k)) <;> rfl

theorem optionalFields_eq {layout : OptionalLayout} {imageBase : UInt64}
    (h : start + 112 < 2 ^ 64) :
    optionalFields b start layout imageBase =
      done (OptionalHeader.parseFields b start layout imageBase) := by
  unfold optionalFields OptionalHeader.parseFields OptionalHeader.checksumOffset
  have hlow := layout.le_fixedSize
  have hhigh := layout.fixedSize_le
  have htail : start + layout.fixedSize - 8 = start + (layout.fixedSize - 8) := by omega
  simp (disch := omega) only [add_eq, ok_bind, u8_eq, u16_eq, u32_eq, sizeField_eq, Nat.add_zero,
    pure_eq, bind_done, htail]
  rfl

theorem optionalHeader_eq {size : UInt16} (h : start + 2 ^ 17 < 2 ^ 64) :
    optionalHeader b start size = done (OptionalHeader.parse b start size) := by
  have hsize := size.toNat_lt
  unfold optionalHeader
  simp (disch := omega) only [add_eq, u16_eq, u32_eq, u64_eq, Nat.add_zero, fail_eq,
    optionalFields_eq, bind_done, ite_done]
  rfl

/-! ## The directories -/

/-- Slot `k` of the directories, empty when the file is too short for it. -/
def directorySlot (b : Bytes) (start k : Nat) : Checked DataDirectory := do
  let i ← add start (← mul 8 k)
  let j ← add i 4
  match b.u32? i, b.u32? j with
  | some address, some size => return ⟨address, size⟩
  | _, _ => return ⟨0, 0⟩

/-- `DataDirectories.parse` with checked steps. -/
def directories (b : Bytes) (start count : Nat) : Checked DataDirectories :=
  Vector.ofFnM fun k => if k.val < count then directorySlot b start k.val else pure ⟨0, 0⟩

theorem directorySlot_eq (h : start + 8 * k + 4 < 2 ^ 64) : directorySlot b start k =
    done (.ok ((DataDirectories.slotAt? b (start + 8 * k)).getD ⟨0, 0⟩)) := by
  unfold directorySlot DataDirectories.slotAt?
  rw [mul_eq (by omega), ok_bind, add_eq (by omega), ok_bind, add_eq h, ok_bind]
  cases b.u32? (start + 8 * k) with
  | none => rfl
  | some _ => cases b.u32? (start + 8 * k + 4) <;> rfl

theorem directories_eq {count : Nat} (h : start + 128 < 2 ^ 64) :
    directories b start count = done (.ok (DataDirectories.parse b start count)) := by
  have hslot : ∀ k : Fin 16,
      (if k.val < count then directorySlot b start k.val else pure ⟨0, 0⟩) =
        (pure (if k.val < count then
          (DataDirectories.slotAt? b (start + 8 * k.val)).getD ⟨0, 0⟩ else ⟨0, 0⟩) :
          Checked DataDirectory) := by
    intro k
    have hk := k.isLt
    rw [directorySlot_eq (by omega)]
    split <;> rfl
  unfold directories
  rw [funext hslot, Vector.ofFnM_pure]
  rfl

/-! ## From the signature to the sections -/

/-- `PeHeaders.parse` with checked steps. -/
def peHeaders (b : Bytes) (start : Nat) : Checked PeHeaders := do
  let stop ← add start PeHeaders.coffOffset
  let found ← orFault (.truncatedHeader stop b.size) (b.slice? start PeHeaders.coffOffset)
  if found ≠ PeHeaders.signature then
    fail .peSignature
  else
    let coff ← coffHeader b (← add start PeHeaders.coffOffset)
    let i ← add start PeHeaders.optionalOffset
    let optional ← optionalHeader b i coff.optionalSize
    let directories ← directories b (← add i optional.layout.fixedSize)
      optional.directoryCount.toNat
    return { coff, optional, directories }

theorem peHeaders_eq (h : start + 2 ^ 18 < 2 ^ 64) :
    peHeaders b start = done (PeHeaders.parse b start) := by
  have hfixed (layout : OptionalLayout) :
      add (start + 24) layout.fixedSize = done (.ok (start + 24 + layout.fixedSize)) := by
    have := layout.fixedSize_le
    exact add_eq (by omega)
  have hdirectories (layout : OptionalLayout) (count : Nat) :
      directories b (start + 24 + layout.fixedSize) count =
        done (.ok (DataDirectories.parse b (start + 24 + layout.fixedSize) count)) := by
    have := layout.fixedSize_le
    exact directories_eq (by omega)
  unfold peHeaders PeHeaders.optionalOffset PeHeaders.coffOffset CoffHeader.size
  simp (disch := omega) only [add_eq, ok_bind, coffHeader_eq, optionalHeader_eq, Nat.reduceAdd,
    hfixed, hdirectories, monadLift_eq, fail_eq, pure_eq, bind_done, ite_done]
  rfl

/-! ## The section headers -/

/-- The eight bytes that are copied; a copy of any other length traps. -/
def eight (b : Bytes) : Checked (Vector UInt8 8) :=
  if h : b.data.size = 8 then pure ⟨b.data, h⟩ else trap

/-- Section header `k` of those from offset `start` on. -/
def sectionHeader (b : Bytes) (start k : Nat) : Checked SectionHeader := do
  let i ← add start (← mul k SectionHeader.size)
  let stop ← add i SectionHeader.size
  let raw ← orFault (.truncatedHeader stop b.size) (b.slice? i SectionHeader.size)
  let rawName ← eight (← cut raw 0 8)
  return { SectionHeader.ofBytes raw with rawName }

/-- `SectionHeader.parseAll` with checked steps. -/
def sectionHeaders (b : Bytes) (start : Nat) (count : UInt16) : Checked (List SectionHeader) :=
  (List.range count.toNat).mapM (sectionHeader b start)

theorem eight_eq (h : 8 ≤ b.size) : eight (b.extract 0 8) =
    done (.ok (Vector.ofFn fun k : Fin 8 => (b.u8? k.val).getD 0)) := by
  have hextract : (b.extract 0 8).size = 8 := by
    rw [ByteArray.size_extract]
    omega
  have hsize : (b.extract 0 8).data.size = 8 := hextract
  have hname : (⟨(b.extract 0 8).data, hsize⟩ : Vector UInt8 8) =
      Vector.ofFn fun k : Fin 8 => (b.u8? k.val).getD 0 := by
    refine Vector.ext fun k hk => ?_
    have hbyte : b.u8? k = some b[k] := getElem?_pos b k (by omega)
    rw [Vector.getElem_ofFn, hbyte, Option.getD_some]
    calc (b.extract 0 8)[k] = b[0 + k] := ByteArray.getElem_extract _
      _ = b[k] := by simp only [Nat.zero_add]
  rw [eight, dif_pos hsize, hname]
  rfl

theorem sectionHeader_eq (h : start + 40 * k + 40 < 2 ^ 64) :
    sectionHeader b start k = done (do
      let i := start + k * SectionHeader.size
      let raw ← orFault (.truncatedHeader (i + SectionHeader.size) b.size)
        (b.slice? i SectionHeader.size)
      return SectionHeader.ofBytes raw) := by
  unfold sectionHeader SectionHeader.size
  rw [mul_eq (by omega), ok_bind, add_eq (by omega), ok_bind, add_eq (by omega), ok_bind]
  refine bind_eq fun raw hraw => ?_
  have hsize : raw.size = 40 := Bytes.size_slice? (orFault_eq_ok_iff.1 hraw)
  rw [cut_eq (by omega) (by omega), ok_bind, eight_eq (by omega), ok_bind]
  rfl

theorem sectionHeaders_eq {count : UInt16} (h : start + 2 ^ 22 < 2 ^ 64) :
    sectionHeaders b start count = done (SectionHeader.parseAll b start count) := by
  refine mapM_eq fun k hk => sectionHeader_eq ?_
  have hk := List.mem_range.1 hk
  have hcount := count.toNat_lt
  omega

end Checked

end ImageTriage
