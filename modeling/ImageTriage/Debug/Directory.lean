import ImageTriage.Debug.CodeView
import ImageTriage.Header.Directory
import ImageTriage.Section.Mapping

/-!
# The debug directory

An array of records of 28 bytes, each of a kind and with data somewhere in the file. Only the data
of CodeView records is looked into.
-/

namespace ImageTriage

/-- A record of the debug directory. -/
structure DebugEntry where
  characteristics : UInt32
  timestamp : UInt32
  majorVersion : UInt16
  minorVersion : UInt16
  kind : UInt32
  dataSize : UInt32
  dataAddress : UInt32
  dataOffset : UInt32
  codeView : Option CodeView
  deriving DecidableEq, Repr

namespace DebugEntry

/-- The number of bytes of a record. -/
def size : Nat := 28

/-- The greatest number of records read. -/
def bound : Nat := 64

/-- The kind of a CodeView record. -/
def codeViewKind : UInt32 := 2

/-- The kinds that have a name. -/
def kindNames : List (UInt32 × String) :=
  [(0, "UNKNOWN"), (1, "COFF"), (codeViewKind, "CODEVIEW"), (3, "FPO"), (4, "MISC"),
    (5, "EXCEPTION"), (6, "FIXUP"), (7, "OMAP_TO_SRC"), (8, "OMAP_FROM_SRC"), (9, "BORLAND"),
    (10, "RESERVED10"), (11, "CLSID"), (12, "VC_FEATURE"), (13, "POGO"), (14, "ILTCG"),
    (15, "MPX"), (16, "REPRO"), (20, "EX_DLLCHARACTERISTICS")]

/-- The name of a kind. -/
def kindName (kind : UInt32) : String := (kindNames.lookup kind).getD "OTHER"

/-- Where the data of a record begins: at its file offset, or else at its address. -/
def dataStart? (m : MappedFile) (e : DebugEntry) : Option Nat :=
  if e.dataOffset = 0 then m.sections.offset? e.dataAddress else some e.dataOffset.toNat

/-- The record whose 28 bytes are given, without its data. Fields that are not there are zero. -/
def ofBytes (raw : Bytes) : DebugEntry where
  characteristics := (raw.u32? 0).getD 0
  timestamp := (raw.u32? 4).getD 0
  majorVersion := (raw.u16? 8).getD 0
  minorVersion := (raw.u16? 10).getD 0
  kind := (raw.u32? 12).getD 0
  dataSize := (raw.u32? 16).getD 0
  dataAddress := (raw.u32? 20).getD 0
  dataOffset := (raw.u32? 24).getD 0
  codeView := none

/-- The CodeView record that a record of that kind leads to. -/
def findCodeView? (m : MappedFile) (e : DebugEntry) : Option CodeView := do
  guard (e.kind = codeViewKind)
  let start ← e.dataStart? m
  let data ← m.file.slice? start e.dataSize.toNat
  CodeView.parse? data

/-- The record at offset `i`, with its data. -/
def read (m : MappedFile) (i : Nat) : Except Fault DebugEntry := do
  let raw ← orFault .debugDirectory (m.file.slice? i size)
  let e := ofBytes raw
  return { e with codeView := e.findCodeView? m }

/-- Reads the debug directory, when the image has one. -/
def parseAll (m : MappedFile) (dir : DataDirectory) : Except Fault (List DebugEntry) := do
  if !dir.isPresent then
    return []
  let start ← m.offset dir.address
  (List.range (min (dir.size.toNat / size) bound)).mapM fun k => read m (start + size * k)

end DebugEntry

end ImageTriage
