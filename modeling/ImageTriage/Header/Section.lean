import ImageTriage.Header.Field
import ImageTriage.Header.Flag
import ImageTriage.Text.Utf8

/-!
# Section headers

A section is a range of addresses of the image, and a range of bytes of the file that is copied
there. Forty bytes describe each. The range of addresses is as long as the longer of the two sizes.
-/

namespace ImageTriage

/-- A section header. -/
structure SectionHeader where
  /-- Eight bytes, filled up with zeros. -/
  rawName : Vector UInt8 8
  virtualSize : UInt32
  virtualAddress : UInt32
  rawSize : UInt32
  rawOffset : UInt32
  relocationOffset : UInt32
  lineNumberOffset : UInt32
  relocationCount : UInt16
  lineNumberCount : UInt16
  characteristics : UInt32
  deriving DecidableEq, Repr

namespace SectionHeader

/-- The number of bytes of a section header. -/
def size : Nat := 40

/-- The header whose forty bytes are given. Fields that are not there are zero. -/
def ofBytes (raw : Bytes) : SectionHeader where
  rawName := Vector.ofFn fun k => (raw.u8? k.val).getD 0
  virtualSize := (raw.u32? 8).getD 0
  virtualAddress := (raw.u32? 12).getD 0
  rawSize := (raw.u32? 16).getD 0
  rawOffset := (raw.u32? 20).getD 0
  relocationOffset := (raw.u32? 24).getD 0
  lineNumberOffset := (raw.u32? 28).getD 0
  relocationCount := (raw.u16? 32).getD 0
  lineNumberCount := (raw.u16? 34).getD 0
  characteristics := (raw.u32? 36).getD 0

/-- Reads `count` section headers from offset `start`. -/
def parseAll (b : Bytes) (start : Nat) (count : UInt16) : Except Fault (List SectionHeader) :=
  (List.range count.toNat).mapM fun k => do
    let i := start + k * size
    let raw ← orFault (.truncatedHeader (i + size) b.size) (b.slice? i size)
    return ofBytes raw

/-- The name of a section: its bytes before the first zero. -/
def name (h : SectionHeader) : String :=
  Utf8.decodeLossy (h.rawName.toList.takeWhile (· != 0))

/-- The length of the range of addresses. -/
def span (h : SectionHeader) : Nat := max h.virtualSize.toNat h.rawSize.toNat

/-- Whether the address is one of the section. -/
def contains (h : SectionHeader) (address : UInt32) : Bool :=
  h.virtualAddress ≤ address && address.toNat - h.virtualAddress.toNat < h.span

/-- The first file offset of the section. -/
def fileStart (h : SectionHeader) : Nat := h.rawOffset.toNat

/-- The file offset after the section. -/
def fileEnd (h : SectionHeader) : Nat := h.rawOffset.toNat + h.rawSize.toNat

/-- The bytes of the section, when all of them are in the file. -/
def data? (h : SectionHeader) (file : Bytes) : Option Bytes :=
  file.slice? h.fileStart h.rawSize.toNat

/-- The names of the characteristics that are set. -/
def flagNames (h : SectionHeader) : List String := Flag.names Flag.sectionBits h.characteristics

/-- Whether the section may be executed. -/
def isExecutable (h : SectionHeader) : Bool := Flag.executable.isSet h.characteristics

/-- Whether the section may be written. -/
def isWritable (h : SectionHeader) : Bool := Flag.writable.isSet h.characteristics

theorem contains_iff {h : SectionHeader} {address : UInt32} :
    h.contains address ↔
      h.virtualAddress.toNat ≤ address.toNat ∧
        address.toNat < h.virtualAddress.toNat + h.span := by
  simp only [contains, Bool.and_eq_true, decide_eq_true_eq, UInt32.le_iff_toNat_le]
  omega

end SectionHeader

end ImageTriage
