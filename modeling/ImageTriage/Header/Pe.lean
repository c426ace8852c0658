import ImageTriage.Header.Coff
import ImageTriage.Header.Directory
import ImageTriage.Header.Optional

/-!
# The image headers

The DOS header leads to the signature `PE\0\0`. After it stand the COFF header, the optional header
and, as the end of that, the data directories.
-/

namespace ImageTriage

/-- The headers after the signature. -/
structure PeHeaders where
  coff : CoffHeader
  optional : OptionalHeader
  directories : DataDirectories

namespace PeHeaders

/-- The letters that open the image headers. -/
def signature : Bytes := "PE\x00\x00".toUTF8

/-- The offset of the COFF header from the signature. -/
def coffOffset : Nat := 4

/-- The offset of the optional header from the signature. -/
def optionalOffset : Nat := coffOffset + CoffHeader.size

/-- Reads the headers whose signature is at offset `start`. -/
def parse (b : Bytes) (start : Nat) : Except Fault PeHeaders := do
  let found ← orFault (.truncatedHeader (start + coffOffset) b.size) (b.slice? start coffOffset)
  if found ≠ signature then
    throw .peSignature
  let coff ← CoffHeader.parse b (start + coffOffset)
  let optional ← OptionalHeader.parse b (start + optionalOffset) coff.optionalSize
  let directories := DataDirectories.parse b
    (start + optionalOffset + optional.layout.fixedSize) optional.directoryCount.toNat
  return { coff, optional, directories }

/-- The offset of the section headers from the signature. -/
def sectionsOffset (h : PeHeaders) : Nat := optionalOffset + h.coff.optionalSize.toNat

end PeHeaders

end ImageTriage
