import ImageTriage.Bytes.Basic
import ImageTriage.Fault

/-!
# Fields of a header

A header field that the file is too short for is a truncated header, with the end that the field
would need.
-/

namespace ImageTriage.Header

/-- An 8-bit field. -/
def u8 (b : Bytes) (i : Nat) : Except Fault UInt8 :=
  orFault (.truncatedHeader (i + 1) b.size) (b.u8? i)

/-- A 16-bit field. -/
def u16 (b : Bytes) (i : Nat) : Except Fault UInt16 :=
  orFault (.truncatedHeader (i + 2) b.size) (b.u16? i)

/-- A 32-bit field. -/
def u32 (b : Bytes) (i : Nat) : Except Fault UInt32 :=
  orFault (.truncatedHeader (i + 4) b.size) (b.u32? i)

/-- A 64-bit field. -/
def u64 (b : Bytes) (i : Nat) : Except Fault UInt64 :=
  orFault (.truncatedHeader (i + 8) b.size) (b.u64? i)

end ImageTriage.Header
