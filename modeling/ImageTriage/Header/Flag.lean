/-!
# Named bits

Characteristics fields are words whose bits have names. A table lists the named bits of one field in
the order in which a report names them; `Flag.names` picks the names of the bits that are set and
passes over bits without a name.
-/

namespace ImageTriage

/-- A named bit of a characteristics field. -/
structure Flag where
  name : String
  mask : UInt32
  deriving DecidableEq, Repr

namespace Flag

/-- Whether the bit is set. -/
def isSet (f : Flag) (bits : UInt32) : Bool := bits &&& f.mask != 0

/-- The names of the set bits, in the order of the table. -/
def names (table : List Flag) (bits : UInt32) : List String :=
  (table.filter (·.isSet bits)).map Flag.name

theorem mem_names_iff {table : List Flag} {bits : UInt32} {s : String} :
    s ∈ names table bits ↔ ∃ f ∈ table, f.isSet bits ∧ f.name = s := by
  simp [names, and_assoc]

/-- The file is a library. -/
def library : Flag := ⟨"DLL", 0x2000⟩

/-- The bits of the file characteristics. -/
def file : List Flag :=
  [⟨"RELOCS_STRIPPED", 0x0001⟩, ⟨"EXECUTABLE_IMAGE", 0x0002⟩, ⟨"LINE_NUMS_STRIPPED", 0x0004⟩,
    ⟨"LOCAL_SYMS_STRIPPED", 0x0008⟩, ⟨"AGGRESSIVE_WS_TRIM", 0x0010⟩,
    ⟨"LARGE_ADDRESS_AWARE", 0x0020⟩, ⟨"BYTES_REVERSED_LO", 0x0080⟩, ⟨"MACHINE_32BIT", 0x0100⟩,
    ⟨"DEBUG_STRIPPED", 0x0200⟩, ⟨"REMOVABLE_RUN_FROM_SWAP", 0x0400⟩,
    ⟨"NET_RUN_FROM_SWAP", 0x0800⟩, ⟨"SYSTEM", 0x1000⟩, library, ⟨"UP_SYSTEM_ONLY", 0x4000⟩,
    ⟨"BYTES_REVERSED_HI", 0x8000⟩]

/-- Addresses may be chosen from the whole 64-bit range. -/
def highEntropy : Flag := ⟨"HIGH_ENTROPY_VA", 0x0020⟩

/-- The image may be moved at load time. -/
def dynamicBase : Flag := ⟨"DYNAMIC_BASE", 0x0040⟩

/-- The loader checks the signature. -/
def forceIntegrity : Flag := ⟨"FORCE_INTEGRITY", 0x0080⟩

/-- Data pages are not executable. -/
def nxCompatible : Flag := ⟨"NX_COMPAT", 0x0100⟩

/-- No structured exception handler may be called in the image. -/
def noHandlers : Flag := ⟨"NO_SEH", 0x0400⟩

/-- The image runs only in a container. -/
def container : Flag := ⟨"APPCONTAINER", 0x1000⟩

/-- Indirect calls are guarded. -/
def guardedCalls : Flag := ⟨"GUARD_CF", 0x4000⟩

/-- The bits of the load characteristics. -/
def load : List Flag :=
  [highEntropy, dynamicBase, forceIntegrity, nxCompatible, ⟨"NO_ISOLATION", 0x0200⟩, noHandlers,
    ⟨"NO_BIND", 0x0800⟩, container, ⟨"WDM_DRIVER", 0x2000⟩, guardedCalls,
    ⟨"TERMINAL_SERVER_AWARE", 0x8000⟩]

/-- The section may be executed. -/
def executable : Flag := ⟨"MEM_EXECUTE", 0x20000000⟩

/-- The section may be written. -/
def writable : Flag := ⟨"MEM_WRITE", 0x80000000⟩

/-- The bits of the section characteristics. -/
def sectionBits : List Flag :=
  [⟨"CNT_CODE", 0x00000020⟩, ⟨"CNT_INITIALIZED_DATA", 0x00000040⟩,
    ⟨"CNT_UNINITIALIZED_DATA", 0x00000080⟩, ⟨"LNK_INFO", 0x00000200⟩, ⟨"LNK_REMOVE", 0x00000800⟩,
    ⟨"LNK_COMDAT", 0x00001000⟩, ⟨"GPREL", 0x00008000⟩, ⟨"LNK_NRELOC_OVFL", 0x01000000⟩,
    ⟨"MEM_DISCARDABLE", 0x02000000⟩, ⟨"MEM_NOT_CACHED", 0x04000000⟩,
    ⟨"MEM_NOT_PAGED", 0x08000000⟩, ⟨"MEM_SHARED", 0x10000000⟩, executable,
    ⟨"MEM_READ", 0x40000000⟩, writable]

end Flag

/-- The load-time defences that an image asks for. -/
structure Mitigations where
  nxCompatible : Bool
  dynamicBase : Bool
  guardedCalls : Bool
  /-- Structured exception handlers may be called. -/
  handlers : Bool
  highEntropy : Bool
  forceIntegrity : Bool
  container : Bool
  deriving DecidableEq, Repr

/-- The defences that the load characteristics ask for. -/
def Mitigations.ofLoadBits (bits : UInt32) : Mitigations where
  nxCompatible := Flag.nxCompatible.isSet bits
  dynamicBase := Flag.dynamicBase.isSet bits
  guardedCalls := Flag.guardedCalls.isSet bits
  handlers := !Flag.noHandlers.isSet bits
  highEntropy := Flag.highEntropy.isSet bits
  forceIntegrity := Flag.forceIntegrity.isSet bits
  container := Flag.container.isSet bits

end ImageTriage
