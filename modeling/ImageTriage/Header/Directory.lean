import ImageTriage.Bytes.Basic

/-!
# Data directories

Sixteen slots, each a place and a size, that lead from the headers to the tables of an image. An
image may name fewer of them; the slots it does not name, and those that the file is too short for,
are empty.
-/

namespace ImageTriage

/-- Where one of the tables of an image lies. -/
structure DataDirectory where
  /-- An address in the image, or for certificates an offset in the file. -/
  address : UInt32
  size : UInt32
  deriving DecidableEq, Repr, Inhabited

/-- Whether there is a table: the slot names a place and a size. -/
def DataDirectory.isPresent (d : DataDirectory) : Bool := d.address != 0 && d.size != 0

/-- The sixteen slots. -/
abbrev DataDirectories := Vector DataDirectory 16

/-- What the slots are for. -/
inductive DirectorySlot where
  | exports
  | imports
  | resources
  | exceptions
  | certificates
  | relocations
  | debug
  | architecture
  | globalPointer
  | tls
  | loadConfig
  | boundImports
  | addressTable
  | delayImports
  | runtime
  | reserved
  deriving DecidableEq, Repr

namespace DirectorySlot

/-- All slots, in order. -/
def all : List DirectorySlot :=
  [exports, imports, resources, exceptions, certificates, relocations, debug, architecture,
    globalPointer, tls, loadConfig, boundImports, addressTable, delayImports, runtime, reserved]

/-- The position of a slot. -/
def index : DirectorySlot → Nat
  | exports => 0
  | imports => 1
  | resources => 2
  | exceptions => 3
  | certificates => 4
  | relocations => 5
  | debug => 6
  | architecture => 7
  | globalPointer => 8
  | tls => 9
  | loadConfig => 10
  | boundImports => 11
  | addressTable => 12
  | delayImports => 13
  | runtime => 14
  | reserved => 15

/-- The name of a slot in a report. -/
def name : DirectorySlot → String
  | exports => "Export"
  | imports => "Import"
  | resources => "Resource"
  | exceptions => "Exception"
  | certificates => "Security"
  | relocations => "BaseReloc"
  | debug => "Debug"
  | architecture => "Architecture"
  | globalPointer => "GlobalPtr"
  | tls => "TLS"
  | loadConfig => "LoadConfig"
  | boundImports => "BoundImport"
  | addressTable => "IAT"
  | delayImports => "DelayImport"
  | runtime => "COMDescriptor"
  | reserved => "Reserved"

theorem index_lt (slot : DirectorySlot) : slot.index < 16 := by cases slot <;> decide

end DirectorySlot

namespace DataDirectories

/-- The slot whose eight bytes lie at offset `i`. -/
def slotAt? (b : Bytes) (i : Nat) : Option DataDirectory := do
  let address ← b.u32? i
  let size ← b.u32? (i + 4)
  return ⟨address, size⟩

/-- Reads `count` slots from offset `start`; at most sixteen, and the rest empty. -/
def parse (b : Bytes) (start : Nat) (count : Nat) : DataDirectories :=
  Vector.ofFn fun k =>
    if k.val < count then (slotAt? b (start + 8 * k.val)).getD ⟨0, 0⟩ else ⟨0, 0⟩

/-- The table of a slot. -/
def get (ds : DataDirectories) (slot : DirectorySlot) : DataDirectory :=
  Vector.get ds ⟨slot.index, slot.index_lt⟩

/-- The table of a slot, when there is one. -/
def present? (ds : DataDirectories) (slot : DirectorySlot) : Option DataDirectory :=
  if (get ds slot).isPresent then some (get ds slot) else none

end DataDirectories

end ImageTriage
