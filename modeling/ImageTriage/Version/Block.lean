import ImageTriage.Bytes.Align
import ImageTriage.Text.Utf16

/-!
# Blocks of version information

Version information is a tree of blocks. A block is a length, the length of its value, a mark
whether the value is text, a key, the value, and blocks of its own; value and inner blocks begin at
multiples of four from the start of the whole. The length of a text value is counted in 16-bit
units, that of any other in bytes. Lengths that reach too far are cut down to the block.
-/

namespace ImageTriage.Version

/-- A block of version information. -/
structure Block where
  key : String
  /-- Whether the value is text. -/
  isText : Bool
  value : Bytes
  /-- Where the inner blocks begin. -/
  innerStart : Nat
  /-- Where the block ends. -/
  stop : Nat

namespace Block

/-- The greatest number of units of a key. -/
def keyBound : Nat := 256

/-- Where the block after this one begins. -/
def next (block : Block) : Nat := alignUp 4 block.stop

/-- A 16-bit field of a block. -/
def u16 (b : Bytes) (i : Nat) : Except Fault UInt16 := orFault .versionInfo (b.u16? i)

/-- The block at offset `i`. -/
def read (b : Bytes) (i : Nat) : Except Fault Block := do
  let length ← u16 b i
  let valueLength ← u16 b (i + 2)
  let mark ← u16 b (i + 4)
  if length < 6 then
    throw .versionInfo
  let stop := min (i + length.toNat) b.size
  match b.utf16z (i + 6) keyBound with
  | .error _ => throw .versionInfo
  | .ok (key, taken) =>
    let isText := mark == 1
    let valueSize := if isText then valueLength.toNat * 2 else valueLength.toNat
    let valueStart := min (alignUp 4 (i + 6 + taken)) stop
    let valueStop := min (valueStart + valueSize) stop
    return {
      key
      isText
      value := b.extract valueStart valueStop
      innerStart := min (alignUp 4 valueStop) stop
      stop }

/-- The blocks from offset `i` up to `stop`. A block takes six bytes at least, and one that does not
lead further ends the list. -/
def readAll (b : Bytes) (i stop : Nat) : Except Fault (List Block) :=
  if _h : i + 6 ≤ stop then
    match read b i with
    | .error fault => .error fault
    | .ok block =>
      if _h : block.next ≤ i then .ok []
      else
        match readAll b block.next stop with
        | .error fault => .error fault
        | .ok rest => .ok (block :: rest)
  else
    .ok []
termination_by stop - i

/-- The inner blocks of a block. -/
def inner (b : Bytes) (block : Block) : Except Fault (List Block) :=
  readAll b block.innerStart block.stop

/-- The text of a value without the zero units at its end; no text when it is not marked as such. -/
def text (block : Block) : String :=
  if block.isText then
    let cs := Utf16.charsLossy (block.value.units 0 (block.value.size / 2))
    String.ofList (cs.reverse.dropWhile (· == Char.ofNat 0)).reverse
  else
    ""

end Block

end ImageTriage.Version
