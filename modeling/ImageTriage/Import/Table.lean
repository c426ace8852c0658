import ImageTriage.Header.Directory
import ImageTriage.Section.Mapping

/-!
# Imported functions

An image lists the libraries it needs, and the functions it needs of each, in two directories: the
regular one, bound when the image is loaded, and the delay-load one, bound at the first call. Each
is an array of records ended by a record of zeros. A record leads to the name of the library and to
an array of thunks, one word per function: an ordinal number, or the address of a hint and a name.

Both directories share one budget of functions. When it is spent no further record is read.

A delay-load record of the older form stores absolute addresses; they are brought back to addresses
in the image by taking off the low 32 bits of the image base.
-/

namespace ImageTriage

/-- What a thunk asks for. -/
inductive ImportTarget where
  | ordinal (number : UInt16)
  /-- The name, where it can be read, and a hint where to find it. -/
  | named (name : Option String) (hint : Option UInt16)
  deriving DecidableEq, Repr

namespace ImportTarget

/-- The name asked for. -/
def name? : ImportTarget → Option String
  | ordinal _ => none
  | named name _ => name

/-- The ordinal asked for. -/
def ordinal? : ImportTarget → Option UInt16
  | ordinal number => some number
  | named _ _ => none

/-- The hint given with a name. -/
def hint? : ImportTarget → Option UInt16
  | ordinal _ => none
  | named _ hint => hint

end ImportTarget

/-- An imported function. -/
structure ImportEntry where
  target : ImportTarget
  /-- The absolute address of the word that the loader fills in; zero when there is no table. -/
  slot : UInt64
  deriving DecidableEq, Repr

/-- When the functions of a record are bound. -/
inductive ImportKind where
  | regular
  | delayLoaded
  deriving DecidableEq, Repr

/-- The number of bytes of a record. -/
def ImportKind.recordSize : ImportKind → Nat
  | regular => 20
  | delayLoaded => 32

/-- A library and the functions imported from it. -/
structure ImportDescriptor where
  dllName : String
  /-- The address of the thunks to look up. -/
  lookupTable : UInt32
  timestamp : UInt32
  forwarderChain : UInt32
  nameAddress : UInt32
  /-- The address of the thunks that the loader fills in. -/
  addressTable : UInt32
  kind : ImportKind
  entries : List ImportEntry
  deriving DecidableEq, Repr

/-- The imports of an image: regular records, then delay-load records, each in order. -/
structure ImportTable where
  descriptors : List ImportDescriptor := []
  deriving DecidableEq, Repr, Inhabited

namespace ImportTable

/-- All imported functions, in order. -/
def entries (t : ImportTable) : List ImportEntry := t.descriptors.flatMap (·.entries)

/-- The number of imported functions. -/
def count (t : ImportTable) : Nat := (t.descriptors.flatMap (·.entries)).length

/-- The names of the libraries, in order. -/
def dllNames (t : ImportTable) : List String := t.descriptors.map (·.dllName)

/-- Whether a function of the given name is imported. -/
def hasImport (t : ImportTable) (name : String) : Bool :=
  t.entries.any (·.target.name? == some name)

theorem count_eq_length_entries (t : ImportTable) : t.count = t.entries.length := by
  simp [count, entries, List.length_flatMap]

end ImportTable

/-! ## Reading -/

/-- A record of either directory, with its addresses brought into the image. -/
structure ImportRecord where
  /-- The address of the library's name; none when the field is zero. -/
  name? : Option UInt32
  lookupTable : UInt32
  timestamp : UInt32
  forwarderChain : UInt32
  addressTable : UInt32
  /-- The address of the thunks to read. -/
  thunks : UInt32

namespace ImportRecord

/-- The word at an offset; zero past the end. -/
def word (b : Bytes) (i : Nat) : UInt32 := (b.u32? i).getD 0

/-- The regular record at offset `i`. Without a lookup table the thunks are those of the address
table. -/
def regular (b : Bytes) (i : Nat) : ImportRecord :=
  let name := word b (i + 12)
  let lookup := word b i
  let addressTable := word b (i + 16)
  { name? := if name = 0 then none else some name
    lookupTable := lookup
    timestamp := word b (i + 4)
    forwarderChain := word b (i + 8)
    addressTable
    thunks := if lookup = 0 then addressTable else lookup }

/-- Brings a stored address into the image: absolute addresses lose the low half of the image base,
and zero stays zero. -/
def rebase (absolute : Bool) (imageBase : UInt64) (address : UInt32) : UInt32 :=
  if absolute && address != 0 then address - imageBase.toUInt32 else address

/-- The delay-load record at offset `i`. The lowest attribute bit marks the form whose addresses lie
in the image already. -/
def delayLoaded (b : Bytes) (imageBase : UInt64) (i : Nat) : ImportRecord :=
  let absolute := word b i &&& 1 == 0
  let name := word b (i + 4)
  let lookup := rebase absolute imageBase (word b (i + 16))
  { name? := if name = 0 then none else some (rebase absolute imageBase name)
    lookupTable := lookup
    timestamp := word b (i + 28)
    forwarderChain := 0
    addressTable := rebase absolute imageBase (word b (i + 12))
    thunks := lookup }

/-- The record of the given kind at offset `i`. -/
def read (m : MappedFile) (i : Nat) : ImportKind → ImportRecord
  | .regular => regular m.file i
  | .delayLoaded => delayLoaded m.file m.imageBase i

end ImportRecord

namespace ImportEntry

/-- The bit of a thunk that marks an ordinal. -/
def ordinalBit (wide : Bool) : UInt64 := if wide then 0x8000000000000000 else 0x80000000

/-- What the thunk asks for. -/
def targetOf (m : MappedFile) (thunk : UInt64) : ImportTarget :=
  if thunk &&& ordinalBit m.wide != 0 then .ordinal thunk.toUInt16
  else
    match m.sections.offset? (thunk &&& 0x7FFFFFFF).toUInt32 with
    | some i => .named (m.file.cstring? (i + 2) 512) (m.file.u16? i)
    | none => .named none none

/-- The absolute address of word `k` of the address table. -/
def slotOf (m : MappedFile) (addressTable : UInt32) (k : Nat) : UInt64 :=
  if addressTable = 0 then 0
  else m.imageBase + addressTable.toUInt64 + UInt64.ofNat (m.pointerSize * k)

/-- The functions of the thunks at an address, at most `limit` of them. Address zero has none. -/
def readAll (m : MappedFile) (thunks addressTable : UInt32) (limit : Nat) :
    Except Fault (List ImportEntry) :=
  if thunks = 0 then .ok []
  else do
    let i ← m.offset thunks
    return (m.pointers i limit).mapIdx fun k thunk =>
      { target := targetOf m thunk, slot := slotOf m addressTable k }

end ImportEntry

namespace ImportTable

/-- The descriptor of a named record with its functions, at most `limit` of them. -/
def readDescriptor (m : MappedFile) (kind : ImportKind) (r : ImportRecord) (name : UInt32)
    (limit : Nat) : Except Fault ImportDescriptor := do
  let dllName ← m.cstring name 256
  let entries ← ImportEntry.readAll m r.thunks r.addressTable limit
  return {
    dllName
    lookupTable := r.lookupTable
    timestamp := r.timestamp
    forwarderChain := r.forwarderChain
    nameAddress := name
    addressTable := r.addressTable
    kind
    entries }

/-- Reads up to `n` records from offset `i` on, until a record of zeros or the end of the budget,
and adds their descriptors to `found`. Records without a name are passed over. -/
def readRecords (m : MappedFile) (kind : ImportKind) :
    Nat → Nat → Nat → Array ImportDescriptor → Except Fault (Array ImportDescriptor)
  | 0, _, _, found => .ok found
  | n + 1, i, budget, found =>
    if m.file.isZero i kind.recordSize || budget == 0 then .ok found
    else
      let r := ImportRecord.read m i kind
      match r.name? with
      | none => readRecords m kind n (i + kind.recordSize) budget found
      | some name =>
        match readDescriptor m kind r name budget with
        | .error fault => .error fault
        | .ok d =>
          readRecords m kind n (i + kind.recordSize) (budget - d.entries.length) (found.push d)

/-- Reads the directory of the given kind, when the image has one. -/
def readDirectory (m : MappedFile) (kind : ImportKind) (dir : DataDirectory) (budget : Nat) :
    Except Fault (List ImportDescriptor) :=
  if dir.isPresent then do
    let i ← m.offset dir.address
    let found ← readRecords m kind ((m.file.size - i) / kind.recordSize) i budget #[]
    return found.toList
  else
    .ok []

/-- Reads both import directories, at most `limit` functions in all. -/
def parse (m : MappedFile) (regular delayLoaded : DataDirectory) (limit : Nat) :
    Except Fault ImportTable := do
  let first ← readDirectory m .regular regular limit
  let spent := (first.flatMap (·.entries)).length
  let second ← readDirectory m .delayLoaded delayLoaded (limit - spent)
  return ⟨first ++ second⟩

end ImportTable

end ImageTriage
