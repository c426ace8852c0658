import ImageTriage.Header.Field

/-!
# The DOS header

The first 64 bytes of an image. Of its fields only the mark `MZ` and the offset of the image headers
matter to a loader of today; the others are kept for the report.
-/

namespace ImageTriage

/-- The DOS header; `magic` is always `DosHeader.mark`. -/
structure DosHeader where
  magic : UInt16
  lastPageBytes : UInt16
  pages : UInt16
  relocations : UInt16
  headerParagraphs : UInt16
  minParagraphs : UInt16
  maxParagraphs : UInt16
  stackSegment : UInt16
  stackPointer : UInt16
  checksum : UInt16
  instructionPointer : UInt16
  codeSegment : UInt16
  relocationTable : UInt16
  overlayNumber : UInt16
  oemId : UInt16
  oemInfo : UInt16
  /-- The file offset of the image headers. -/
  headerOffset : UInt32
  deriving DecidableEq, Repr

namespace DosHeader

/-- The letters `MZ`. -/
def mark : UInt16 := 0x5A4D

/-- The number of bytes of the header. -/
def size : Nat := 64

/-- Reads the DOS header at the start of a file. -/
def parse (b : Bytes) : Except Fault DosHeader := do
  if b.size < size then
    throw (.truncatedHeader size b.size)
  let magic ← Header.u16 b 0
  if magic ≠ mark then
    throw .dosSignature
  return {
    magic
    lastPageBytes := ← Header.u16 b 2
    pages := ← Header.u16 b 4
    relocations := ← Header.u16 b 6
    headerParagraphs := ← Header.u16 b 8
    minParagraphs := ← Header.u16 b 10
    maxParagraphs := ← Header.u16 b 12
    stackSegment := ← Header.u16 b 14
    stackPointer := ← Header.u16 b 16
    checksum := ← Header.u16 b 18
    instructionPointer := ← Header.u16 b 20
    codeSegment := ← Header.u16 b 22
    relocationTable := ← Header.u16 b 24
    overlayNumber := ← Header.u16 b 26
    oemId := ← Header.u16 b 36
    oemInfo := ← Header.u16 b 38
    headerOffset := ← Header.u32 b 60 }

end DosHeader

end ImageTriage
