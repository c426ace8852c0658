import ImageTriage.Header.Directory
import ImageTriage.Section.Mapping

/-!
# Base relocations

When an image is not loaded where it wanted to be, the words that hold absolute addresses are
patched. The relocation directory lists them in blocks, one per page: the address of the page, the
size of the block, and a 16-bit word per patch, whose high four bits are the kind of the patch and
whose low twelve its place in the page. The blocks fill the directory one after the other; a block
of zeros, or a rest too short for a block, ends them.
-/

namespace ImageTriage

/-- A word to be patched. -/
structure Relocation where
  kind : UInt8
  /-- The place in the page, below 4096. -/
  offset : UInt16
  deriving DecidableEq, Repr

/-- The words to be patched in one page. -/
structure RelocationBlock where
  page : UInt32
  /-- The number of bytes of the block. -/
  size : UInt32
  entries : List Relocation
  deriving DecidableEq, Repr

namespace Relocation

/-- The kinds that have a name. -/
def kindNames : List (UInt8 × String) :=
  [(0, "ABSOLUTE"), (1, "HIGH"), (2, "LOW"), (3, "HIGHLOW"), (4, "HIGHADJ"),
    (5, "MACHINE_SPECIFIC_5"), (7, "THUMB_MOV32"), (8, "RISCV_LOW12S"),
    (9, "MACHINE_SPECIFIC_9"), (10, "DIR64")]

/-- The name of a kind. -/
def kindName (kind : UInt8) : String := (kindNames.lookup kind).getD "UNKNOWN"

/-- The patch that a 16-bit word describes. -/
def ofWord (w : UInt16) : Relocation := ⟨(w >>> 12).toUInt8, w &&& 0x0FFF⟩

/-- The address patched in the given page; none beyond the last address. -/
def target? (page : UInt32) (r : Relocation) : Option UInt32 :=
  let address := page.toNat + r.offset.toNat
  if address < UInt32.size then some (UInt32.ofNat address) else none

end Relocation

namespace RelocationBlock

/-- A 32-bit field of a block. -/
def u32 (b : Bytes) (i : Nat) : Except Fault UInt32 := orFault .relocations (b.u32? i)

/-- The patches of the words between offset `i` and `i + 2 * n`. -/
def readEntries (b : Bytes) (i n : Nat) : List Relocation :=
  (List.range n).filterMap fun k => (b.u16? (i + 2 * k)).map Relocation.ofWord

/-- Reads the blocks from offset `i` up to `stop`, at most `limit` of them, and adds them to
`found`. -/
def readFrom (b : Bytes) (limit i stop : Nat) (found : Array RelocationBlock) :
    Except Fault (Array RelocationBlock) :=
  if i + 8 ≤ stop then
    if limit ≤ found.size then .error (.tooMany "relocation blocks")
    else
      match u32 b i, u32 b (i + 4) with
      | .ok page, .ok size =>
        if page = 0 ∧ size = 0 then .ok found
        else if size.toNat < 8 ∨ stop < i + size.toNat then .error .relocations
        else
          readFrom b limit (i + size.toNat) stop
            (found.push ⟨page, size, readEntries b (i + 8) ((size.toNat - 8) / 2)⟩)
      | .error fault, _ => .error fault
      | .ok _, .error fault => .error fault
  else
    .ok found
termination_by stop - i

/-- Reads the relocation directory, when the image has one: at most `limit` blocks. -/
def parseAll (m : MappedFile) (dir : DataDirectory) (limit : Nat) :
    Except Fault (List RelocationBlock) := do
  if !dir.isPresent then
    return []
  let start ← m.offset dir.address
  let stop := min (start + dir.size.toNat) m.file.size
  let found ← readFrom m.file limit start stop #[]
  return found.toList

end RelocationBlock

end ImageTriage
