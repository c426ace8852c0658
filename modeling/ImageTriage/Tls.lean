import ImageTriage.Header.Directory
import ImageTriage.Section.Mapping

/-!
# Thread-local storage

The TLS directory describes the initial data of each thread, and functions that run before the entry
point. All of its addresses are absolute. The functions are listed in an array ended by zero; it is
looked up only when its address lies above the image base, by the low 32 bits of the difference.
-/

namespace ImageTriage

/-- The TLS directory. -/
structure TlsDirectory where
  dataStart : UInt64
  dataEnd : UInt64
  indexAddress : UInt64
  callbacksAddress : UInt64
  zeroFill : UInt32
  characteristics : UInt32
  /-- The absolute addresses of the functions. -/
  callbacks : List UInt64
  deriving DecidableEq, Repr

namespace TlsDirectory

/-- The functions listed at an absolute address, at most `limit` of them. -/
def readCallbacks (m : MappedFile) (address : UInt64) (limit : Nat) : List UInt64 :=
  if m.imageBase < address then
    match m.sections.offset? (address - m.imageBase).toUInt32 with
    | some i => m.pointers i limit
    | none => []
  else
    []

/-- Reads the TLS directory, when the image has one: at most `limit` callbacks. -/
def parse (m : MappedFile) (dir : DataDirectory) (limit : Nat) :
    Except Fault (Option TlsDirectory) := do
  if !dir.isPresent then
    return none
  let i ← m.offset dir.address
  let w := m.pointerSize
  let dataStart ← orFault .tlsDirectory (m.pointer? i)
  let dataEnd ← orFault .tlsDirectory (m.pointer? (i + w))
  let indexAddress ← orFault .tlsDirectory (m.pointer? (i + 2 * w))
  let callbacksAddress ← orFault .tlsDirectory (m.pointer? (i + 3 * w))
  let zeroFill ← orFault .tlsDirectory (m.file.u32? (i + 4 * w))
  let characteristics ← orFault .tlsDirectory (m.file.u32? (i + 4 * w + 4))
  return some {
    dataStart
    dataEnd
    indexAddress
    callbacksAddress
    zeroFill
    characteristics
    callbacks := readCallbacks m callbacksAddress limit }

end TlsDirectory

end ImageTriage
