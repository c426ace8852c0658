import ImageTriage.Bytes.Basic

/-!
# Bounded reading

A source of bytes answers a request for up to `n` bytes with some of them, and with none only at its
end. A `Capped` reader passes requests on until it has given out as many bytes as its limit allows;
from then on it behaves as at the end.

`ReadLimits` bound whole files. A file is refused by its size before anything is read; since it may
grow after that, it is read through a capped reader, and refused if the limit is reached and there
is more. So a file is read whole or not at all.
-/

namespace ImageTriage

/-- A reader that gives out at most `limit` bytes. -/
structure Capped (σ : Type) where
  inner : σ
  limit : Nat
  consumed : Nat := 0

namespace Capped

variable {σ : Type}

/-- Whether the limit is reached. -/
def isExhausted (r : Capped σ) : Bool := r.limit ≤ r.consumed

/-- Asks for up to `n` bytes. -/
def read (pull : σ → Nat → Bytes × σ) (r : Capped σ) (n : Nat) : Bytes × Capped σ :=
  let remaining := r.limit - r.consumed
  if remaining = 0 then (.empty, r)
  else
    let (bytes, inner) := pull r.inner (min n remaining)
    (bytes, { r with inner, consumed := r.consumed + bytes.size })

/-- Asks for bytes until there are none and puts them after those of `found`: `rounds` times at
most, and for `sizes k` bytes when `k` rounds come after. -/
def readToEnd (pull : σ → Nat → Bytes × σ) (sizes : Nat → Nat) :
    Nat → Capped σ → Bytes → Bytes × Capped σ
  | 0, r, found => (found, r)
  | rounds + 1, r, found =>
    let (bytes, r) := r.read pull (sizes rounds)
    if bytes.size = 0 then (found, r)
    else readToEnd pull sizes rounds r (found ++ bytes)

end Capped

/-- A source that gives out the bytes from a position on. -/
structure Cursor where
  bytes : Bytes
  position : Nat := 0

namespace Cursor

/-- The next `n` bytes, or as many as there are. -/
def pull (c : Cursor) (n : Nat) : Bytes × Cursor :=
  let stop := min (c.position + n) c.bytes.size
  (c.bytes.extract c.position stop, { c with position := max c.position stop })

/-- What is left. -/
def rest (c : Cursor) : Bytes := c.bytes.extract c.position c.bytes.size

end Cursor

/-- Limits on the files that are read. -/
structure ReadLimits where
  /-- How many bytes of a file may be read. -/
  readBytes : Nat := UInt64.size - 1
  /-- How large a file may be. -/
  fileSize : Nat := UInt64.size - 1
  deriving DecidableEq, Repr, Inhabited

namespace ReadLimits

/-- A file is larger than it may be. -/
def tooLarge (limits : ReadLimits) (size : Nat) : String :=
  "file too large: " ++ toString size ++ " bytes (limit: " ++ toString limits.fileSize ++ ")"

/-- A file holds more bytes than may be read. -/
def overLimit (limits : ReadLimits) : String :=
  "file exceeds read limit of " ++ toString limits.readBytes ++ " bytes"

/-- Checks the size of a file before it is read. -/
def checkSize (limits : ReadLimits) (size : Nat) : Except String Unit :=
  if limits.fileSize < size then .error (limits.tooLarge size)
  else if limits.readBytes < size then .error limits.overLimit
  else .ok ()

/-- Reads a source to its end, and refuses it when there is more than may be read: when the limit
is reached, one more byte is asked for. -/
def readSource {σ : Type} (limits : ReadLimits) (pull : σ → Nat → Bytes × σ) (sizes : Nat → Nat)
    (rounds : Nat) (source : σ) : Except String Bytes :=
  let (data, r) := Capped.readToEnd pull sizes rounds
    { inner := source, limit := limits.readBytes } .empty
  if r.isExhausted && (pull r.inner 1).1.size != 0 then .error limits.overLimit
  else .ok data

/-- How many bytes of a content are asked for at a time. -/
def chunk : Nat := 8192

/-- Reads a content to its end, and refuses it when there is more than may be read. -/
def readAll (limits : ReadLimits) (content : Bytes) : Except String Bytes :=
  limits.readSource Cursor.pull (fun _ => chunk) (content.size + 1) { bytes := content }

end ReadLimits

end ImageTriage
