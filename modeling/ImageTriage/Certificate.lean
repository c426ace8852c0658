import ImageTriage.Bytes.Align
import ImageTriage.Bytes.Basic
import ImageTriage.Fault
import ImageTriage.Header.Directory

/-!
# Certificates

Signatures of an image stand after its sections, and their directory gives an offset in the file,
not an address. Each is a length, a revision, a kind and the signature itself, and begins at the
next multiple of eight after the one before.
-/

namespace ImageTriage

/-- A signature of an image. -/
structure Certificate where
  /-- The low 32 bits of the file offset. -/
  offset : UInt32
  /-- The number of bytes, the eight of the fixed part among them. -/
  length : UInt32
  revision : UInt16
  kind : UInt16
  payload : Bytes
  deriving DecidableEq

namespace Certificate

/-- The greatest number of certificates read. -/
def bound : Nat := 32

/-- The kinds that have a name. -/
def kindNames : List (UInt16 × String) :=
  [(1, "X509"), (2, "PKCS_SIGNED_DATA"), (3, "RESERVED_1"), (4, "TS_STACK_SIGNED")]

/-- The name of a kind. -/
def kindName (kind : UInt16) : String := (kindNames.lookup kind).getD "UNKNOWN"

/-- The certificate at offset `i` of a table that ends at `stop`. -/
def read (b : Bytes) (i stop : Nat) : Except Fault Certificate := do
  let length ← orFault .certificateTable (b.u32? i)
  let revision ← orFault .certificateTable (b.u16? (i + 4))
  let kind ← orFault .certificateTable (b.u16? (i + 6))
  if length.toNat < 8 ∨ stop < i + length.toNat then
    throw .certificateTable
  return {
    offset := UInt32.ofNat i
    length
    revision
    kind
    payload := b.extract (i + 8) (i + length.toNat) }

/-- Reads up to `n` certificates from offset `i` of a table that ends at `stop`. -/
def readFrom (b : Bytes) (stop : Nat) : Nat → Nat → Except Fault (List Certificate)
  | 0, _ => .ok []
  | n + 1, i =>
    if i + 8 ≤ stop then do
      let c ← read b i stop
      let rest ← readFrom b stop n (alignUp 8 (i + c.length.toNat))
      return c :: rest
    else
      .ok []

/-- Reads the certificate table, when the image has one. All of it must be in the file. -/
def parseAll (b : Bytes) (dir : DataDirectory) : Except Fault (List Certificate) :=
  if !dir.isPresent then .ok []
  else if b.size < dir.address.toNat + dir.size.toNat then .error .certificateTable
  else readFrom b (dir.address.toNat + dir.size.toNat) bound dir.address.toNat

end Certificate

end ImageTriage
