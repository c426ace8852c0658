import ImageTriage.Header.Directory
import ImageTriage.Section.Mapping
import Std.Data.HashMap

/-!
# Exported functions

The export directory of an image has three arrays. The address array has a slot per ordinal; a zero
address is an empty slot. The name array and the ordinal array go together: row `i` of one gives the
name, and row `i` of the other the slot, of a named export. Several rows may name one slot; the last
row that can be read wins.

An address inside the directory itself is no code but the text of a forwarder: the function of
another library that stands behind the export.
-/

namespace ImageTriage

/-- An exported function. -/
structure ExportEntry where
  name : Option String
  ordinal : UInt32
  address : UInt32
  forwarder : Option String
  deriving DecidableEq, Repr

/-- The exports of an image, in the order of their ordinals. -/
structure ExportTable where
  dllName : Option String := none
  timestamp : UInt32 := 0
  majorVersion : UInt16 := 0
  minorVersion : UInt16 := 0
  ordinalBase : UInt32 := 0
  exports : List ExportEntry := []
  deriving DecidableEq, Repr, Inhabited

namespace ExportTable

/-- The first export of the given name. -/
def named? (t : ExportTable) (name : String) : Option ExportEntry :=
  t.exports.find? (·.name == some name)

/-- The first export of the given ordinal. -/
def ordinal? (t : ExportTable) (ordinal : UInt32) : Option ExportEntry :=
  t.exports.find? (·.ordinal == ordinal)

/-- The number of exports. -/
def count (t : ExportTable) : Nat := t.exports.length

/-- The number of exports with a name. -/
def namedCount (t : ExportTable) : Nat := t.exports.countP (·.name.isSome)

/-- The names of the slots, from `rows` rows of the name array at offset `names` and the ordinal
array at offset `ordinals`. -/
def slotNames (m : MappedFile) (names ordinals rows : Nat) : Std.HashMap Nat String :=
  (List.range rows).foldl (fun found i =>
    match (m.file.u32? (names + 4 * i)).bind (m.cstring? · 512), m.file.u16? (ordinals + 2 * i) with
    | some name, some slot => found.insert slot.toNat name
    | _, _ => found) ∅

/-- The names of the slots, when the directory has both arrays and any rows. A row counts only when
both arrays are long enough for it. -/
def readNames (m : MappedFile) (names ordinals : UInt32) (rows : Nat) :
    Except Fault (Std.HashMap Nat String) :=
  if rows = 0 ∨ names = 0 ∨ ordinals = 0 then .ok ∅
  else do
    let i ← m.offset names
    let j ← m.offset ordinals
    return slotNames m i j (min rows (min ((m.file.size - i) / 4) ((m.file.size - j) / 2)))

/-- The text of the forwarder at an address inside the directory. -/
def forwarder? (m : MappedFile) (dir : DataDirectory) (address : UInt32) : Option String :=
  let stop := min (dir.address.toNat + dir.size.toNat) (UInt32.size - 1)
  if dir.address.toNat ≤ address.toNat ∧ address.toNat < stop then m.cstring? address 256
  else none

/-- The exports in the first `slots` slots of the address array at offset `i`. -/
def readSlots (m : MappedFile) (dir : DataDirectory) (base : UInt32)
    (names : Std.HashMap Nat String) (i slots : Nat) : List ExportEntry :=
  (List.range slots).filterMap fun k =>
    let address := (m.file.u32? (i + 4 * k)).getD 0
    if address = 0 then none
    else some {
      name := names[k]?
      ordinal := base + UInt32.ofNat k
      address
      forwarder := forwarder? m dir address }

/-- Reads the export directory, when the image has one: at most `limit` slots and `limit` rows. -/
def parse (m : MappedFile) (dir : DataDirectory) (limit : Nat) : Except Fault ExportTable := do
  if !dir.isPresent then
    return {}
  let start ← m.offset dir.address
  let header ← orFault (.truncatedHeader (start + 40) m.file.size) (m.file.slice? start 40)
  let field (i : Nat) := orFault .exportTable (header.u32? i)
  let timestamp ← field 4
  let nameAddress ← field 12
  let ordinalBase ← field 16
  let slots ← field 20
  let rows ← field 24
  let addressArray ← field 28
  let nameArray ← field 32
  let ordinalArray ← field 36
  let i ← m.offset addressArray
  let names ← readNames m nameArray ordinalArray (min rows.toNat limit)
  return {
    dllName := if nameAddress = 0 then none else m.cstring? nameAddress 256
    timestamp
    majorVersion := (header.u16? 8).getD 0
    minorVersion := (header.u16? 10).getD 0
    ordinalBase
    exports := readSlots m dir ordinalBase names i
      (min (min slots.toNat limit) ((m.file.size - i) / 4)) }

end ExportTable

end ImageTriage
