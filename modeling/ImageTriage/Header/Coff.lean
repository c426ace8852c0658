import ImageTriage.Header.Field
import ImageTriage.Header.Flag
import ImageTriage.Header.Machine

/-!
# The COFF header

Twenty bytes after the signature `PE\0\0`: the machine, the number of sections, and the size of the
optional header that follows.
-/

namespace ImageTriage

/-- The COFF header. -/
structure CoffHeader where
  machine : Machine
  sectionCount : UInt16
  /-- Seconds since the start of 1970. -/
  timestamp : UInt32
  symbolTable : UInt32
  symbolCount : UInt32
  optionalSize : UInt16
  characteristics : UInt16
  deriving DecidableEq, Repr

namespace CoffHeader

/-- The number of bytes of the header. -/
def size : Nat := 20

/-- Reads the COFF header at offset `start`. -/
def parse (b : Bytes) (start : Nat) : Except Fault CoffHeader := do
  if b.size < start + size then
    throw (.truncatedHeader (start + size) b.size)
  return {
    machine := .ofWord (← Header.u16 b start)
    sectionCount := ← Header.u16 b (start + 2)
    timestamp := ← Header.u32 b (start + 4)
    symbolTable := ← Header.u32 b (start + 8)
    symbolCount := ← Header.u32 b (start + 12)
    optionalSize := ← Header.u16 b (start + 16)
    characteristics := ← Header.u16 b (start + 18) }

/-- The names of the characteristics that are set. -/
def flagNames (h : CoffHeader) : List String :=
  Flag.names Flag.file h.characteristics.toUInt32

/-- Whether the image is a library. -/
def isLibrary (h : CoffHeader) : Bool := Flag.library.isSet h.characteristics.toUInt32

end CoffHeader

end ImageTriage
