import ImageTriage.Header.Field
import ImageTriage.Header.Flag
import ImageTriage.Header.Machine

/-!
# The optional header

What a loader needs to know: the entry point, where the image wants to be loaded, and how large its
parts are. There are two layouts, told apart by the first word. PE32 has one field more
(`baseOfData`) and 32-bit addresses and sizes; PE32+ has 64-bit ones. Both share the fields from the
section alignment to the load characteristics, at the same offsets. Sizes and the image base are
kept as 64-bit words in either layout.
-/

namespace ImageTriage

/-- The two layouts of the optional header. -/
inductive OptionalLayout where
  | pe32 (baseOfData : UInt32)
  | pe32Plus
  deriving DecidableEq, Repr

namespace OptionalLayout

/-- The first word of a header of the layout. -/
def magic : OptionalLayout → UInt16
  | pe32 _ => 0x10B
  | pe32Plus => 0x20B

/-- Whether addresses have 64 bits. -/
def is64Bit : OptionalLayout → Bool
  | pe32 _ => false
  | pe32Plus => true

/-- The number of bytes before the data directories. -/
def fixedSize : OptionalLayout → Nat
  | pe32 _ => 96
  | pe32Plus => 112

/-- The name of the layout in a report. -/
def name : OptionalLayout → String
  | pe32 _ => "PE32"
  | pe32Plus => "PE32+"

theorem le_fixedSize (layout : OptionalLayout) : 96 ≤ layout.fixedSize := by
  cases layout <;> simp [fixedSize]

theorem fixedSize_le (layout : OptionalLayout) : layout.fixedSize ≤ 112 := by
  cases layout <;> simp [fixedSize]

end OptionalLayout

/-- The optional header. -/
structure OptionalHeader where
  layout : OptionalLayout
  linkerMajor : UInt8
  linkerMinor : UInt8
  codeSize : UInt32
  initializedSize : UInt32
  uninitializedSize : UInt32
  entryPoint : UInt32
  codeBase : UInt32
  imageBase : UInt64
  sectionAlignment : UInt32
  fileAlignment : UInt32
  systemMajor : UInt16
  systemMinor : UInt16
  imageMajor : UInt16
  imageMinor : UInt16
  subsystemMajor : UInt16
  subsystemMinor : UInt16
  win32Version : UInt32
  imageSize : UInt32
  headersSize : UInt32
  checksum : UInt32
  subsystem : Subsystem
  characteristics : UInt16
  stackReserve : UInt64
  stackCommit : UInt64
  heapReserve : UInt64
  heapCommit : UInt64
  loaderFlags : UInt32
  directoryCount : UInt32
  deriving DecidableEq, Repr

namespace OptionalHeader

/-- The offset of the checksum in a header of either layout. -/
def checksumOffset : Nat := 64

/-- A size field: 64 bits wide in PE32+, else 32. The fields lie at `72 + k * width`. -/
def sizeField (b : Bytes) (start : Nat) (wide : Bool) (k : Nat) : Except Fault UInt64 :=
  if wide then Header.u64 b (start + 72 + 8 * k)
  else (·.toUInt64) <$> Header.u32 b (start + 72 + 4 * k)

/-- Reads the fields of a header of the given layout and image base. -/
def parseFields (b : Bytes) (start : Nat) (layout : OptionalLayout) (imageBase : UInt64) :
    Except Fault OptionalHeader := do
  let wide := layout.is64Bit
  let tail := start + layout.fixedSize - 8
  return {
    layout
    linkerMajor := ← Header.u8 b (start + 2)
    linkerMinor := ← Header.u8 b (start + 3)
    codeSize := ← Header.u32 b (start + 4)
    initializedSize := ← Header.u32 b (start + 8)
    uninitializedSize := ← Header.u32 b (start + 12)
    entryPoint := ← Header.u32 b (start + 16)
    codeBase := ← Header.u32 b (start + 20)
    imageBase
    sectionAlignment := ← Header.u32 b (start + 32)
    fileAlignment := ← Header.u32 b (start + 36)
    systemMajor := ← Header.u16 b (start + 40)
    systemMinor := ← Header.u16 b (start + 42)
    imageMajor := ← Header.u16 b (start + 44)
    imageMinor := ← Header.u16 b (start + 46)
    subsystemMajor := ← Header.u16 b (start + 48)
    subsystemMinor := ← Header.u16 b (start + 50)
    win32Version := ← Header.u32 b (start + 52)
    imageSize := ← Header.u32 b (start + 56)
    headersSize := ← Header.u32 b (start + 60)
    checksum := ← Header.u32 b (start + checksumOffset)
    subsystem := .ofWord (← Header.u16 b (start + 68))
    characteristics := ← Header.u16 b (start + 70)
    stackReserve := ← sizeField b start wide 0
    stackCommit := ← sizeField b start wide 1
    heapReserve := ← sizeField b start wide 2
    heapCommit := ← sizeField b start wide 3
    loaderFlags := ← Header.u32 b tail
    directoryCount := ← Header.u32 b (tail + 4) }

/-- Reads the optional header of `size` bytes at offset `start`. The whole of it must be in the
file, and it must hold the fixed part of its layout. -/
def parse (b : Bytes) (start : Nat) (size : UInt16) : Except Fault OptionalHeader := do
  let size := size.toNat
  if size < 2 then
    throw (.truncatedHeader (start + 2) b.size)
  if b.size < start + size then
    throw (.truncatedHeader (start + size) b.size)
  let magic ← Header.u16 b start
  if magic = (OptionalLayout.pe32 0).magic then
    if size < 96 then
      throw (.truncatedHeader (start + 96) (start + size))
    let baseOfData ← Header.u32 b (start + 24)
    let imageBase ← Header.u32 b (start + 28)
    parseFields b start (.pe32 baseOfData) imageBase.toUInt64
  else if magic = OptionalLayout.pe32Plus.magic then
    if size < 112 then
      throw (.truncatedHeader (start + 112) (start + size))
    let imageBase ← Header.u64 b (start + 24)
    parseFields b start .pe32Plus imageBase
  else
    throw (.optionalMagic magic)

/-- Whether addresses have 64 bits. -/
def is64Bit (h : OptionalHeader) : Bool := h.layout.is64Bit

/-- The base of data, which only PE32 has. -/
def baseOfData? (h : OptionalHeader) : Option UInt32 :=
  match h.layout with
  | .pe32 base => some base
  | .pe32Plus => none

/-- The names of the load characteristics that are set. -/
def flagNames (h : OptionalHeader) : List String :=
  Flag.names Flag.load h.characteristics.toUInt32

/-- The defences that the load characteristics ask for. -/
def mitigations (h : OptionalHeader) : Mitigations :=
  .ofLoadBits h.characteristics.toUInt32

end OptionalHeader

end ImageTriage
