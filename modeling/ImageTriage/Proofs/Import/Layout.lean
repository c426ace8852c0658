import ImageTriage.Import.Table
import ImageTriage.Proofs.Text.Utf8

/-!
# Import tables laid out in a file

A `StoredLibrary` is a record of either import directory with what it leads to: the name of a
library and the functions wanted of it. `DirectoryStands` says that an array of them is laid out in
a file. The records follow each other and a record of zeros ends them; the words of a thunk table
follow each other and a zero word ends them; all else lies at any mapped address.

Reading gives back the libraries that have a name, with their functions (`parse_of_stand`). An
address of zero stands for nothing: a record whose name has it is passed over, and a library whose
thunks have it has no functions.
-/

namespace ImageTriage

open Bytes Utf8

/-! ## Words of a table -/

namespace MappedFile

variable {m : MappedFile} {i limit : Nat} {w : UInt64} {ws : List UInt64}

/-- The words, each as wide as an absolute address, with the zero word that ends them. -/
def wordBytes (m : MappedFile) (ws : List UInt64) : List UInt8 :=
  ws.flatMap (leBytes m.pointerSize ·.toNat) ++ leBytes m.pointerSize 0

/-- The word can be stored in the width of an absolute address. -/
def FitsWord (m : MappedFile) (w : UInt64) : Prop := m.wide ∨ w.toNat < UInt32.size

theorem pointer?_of_holds (h : m.file.Holds i (leBytes m.pointerSize w.toNat)) (hw : m.FitsWord w) :
    m.pointer? i = some w := by
  rw [pointerSize] at h
  rw [pointer?]
  split at h
  case isTrue hwide =>
    rw [if_pos hwide, u64?, h.leNat? w.toNat_lt, Option.map_some, UInt64.ofNat_toNat]
  case isFalse hnarrow =>
    have hlt : w.toNat < UInt32.size := hw.resolve_left hnarrow
    rw [if_neg hnarrow, u32?, h.leNat? hlt, Option.map_some, Option.map_some, Option.some.injEq,
      ← UInt64.toNat_inj, UInt32.toNat_toUInt64]
    exact UInt32.toNat_ofNat_of_lt hlt

/-- A table is read up to the zero word that ends it. -/
theorem pointers_of_holds (h : m.file.Holds i (m.wordBytes ws)) (hfits : ∀ w ∈ ws, m.FitsWord w)
    (hne : 0 ∉ ws) (hlimit : ws.length < limit) : m.pointers i limit = ws := by
  induction ws generalizing i limit with
  | nil =>
    have hzero : m.pointer? i = some 0 := pointer?_of_holds h (.inr (by decide))
    exact m.pointers_of_zero limit hzero
  | cons w ws ih =>
    rw [wordBytes, List.flatMap_cons, List.append_assoc] at h
    rw [List.length_cons] at hlimit
    obtain ⟨rest, rfl⟩ : ∃ rest, limit = rest + 1 := ⟨limit - 1, by omega⟩
    have hword : m.pointer? i = some w := pointer?_of_holds h.left (hfits w (by simp))
    have hrest := h.right
    rw [length_leBytes] at hrest
    rw [m.pointers_succ rest hword (by rintro rfl; simp at hne),
      ih hrest (fun w hw => hfits w (by simp [hw])) (fun hmem => hne (by simp [hmem])) (by omega)]

end MappedFile

/-! ## Functions -/

/-- A function that a library is asked for: by its number, or by its name with a hint. -/
inductive StoredFunction where
  | ordinal (number : UInt16)
  /-- The hint and the name stand at the address. -/
  | named (address : UInt32) (hint : UInt16) (name : String)

namespace StoredFunction

/-- What the reader should find. -/
def target : StoredFunction → ImportTarget
  | ordinal number => .ordinal number
  | named _ hint name => .named (some name) (some hint)

/-- The mark of a thunk with a number: the high bit of a word. -/
def mark (wide : Bool) : Nat := if wide then 0x8000000000000000 else 0x80000000

/-- The thunk: the number under the mark, or the address. -/
def word (wide : Bool) : StoredFunction → UInt64
  | ordinal number => UInt64.ofNat (number.toNat + mark wide)
  | named address _ _ => address.toUInt64

/-- What a thunk with an address leads to is there. -/
def Stands (m : MappedFile) : StoredFunction → Prop
  | ordinal _ => True
  | named address hint name =>
    address ≠ 0 ∧ address.toNat < 0x80000000 ∧ IsName 512 name ∧
      ∃ i, m.sections.offset? address = some i ∧
        m.file.Holds i (leBytes 2 hint.toNat ++ nameBytes name)

variable {m : MappedFile} {wide : Bool} {f : StoredFunction} {number : UInt16}

theorem toNat_word_ordinal : ((ordinal number).word wide).toNat = number.toNat + mark wide := by
  have hlt := number.toNat_lt
  refine UInt64.toNat_ofNat_of_lt ?_
  show number.toNat + mark wide < 0x10000000000000000
  rw [mark]
  split <;> omega

theorem toNat_ordinalBit : (ImportEntry.ordinalBit wide).toNat = mark wide := by
  cases wide <;> rfl

theorem ordinal_and_bit : (ordinal number).word wide &&& ImportEntry.ordinalBit wide != 0 := by
  have hlt := number.toNat_lt
  have hand : ((ordinal number).word wide &&& ImportEntry.ordinalBit wide).toNat = mark wide := by
    rw [UInt64.toNat_and, toNat_word_ordinal, toNat_ordinalBit]
    cases wide with
    | false => exact add_two_pow_and_two_pow (k := 31) (by omega)
    | true => exact add_two_pow_and_two_pow (k := 63) (by omega)
  have hpos : mark wide ≠ 0 := by cases wide <;> decide
  rw [bne_iff_ne, ne_eq, ← UInt64.toNat_inj, hand]
  exact hpos

theorem toUInt16_word : ((ordinal number).word wide).toUInt16 = number := by
  have hlt := number.toNat_lt
  rw [← UInt16.toNat_inj, UInt64.toNat_toUInt16, toNat_word_ordinal, mark]
  split <;> omega

variable {address : UInt32} {hint : UInt16} {name : String}

theorem named_and_bit (h : address.toNat < 0x80000000) :
    ((named address hint name).word wide &&& ImportEntry.ordinalBit wide != 0) = false := by
  have hand : ((named address hint name).word wide &&& ImportEntry.ordinalBit wide).toNat = 0 := by
    rw [UInt64.toNat_and, word, UInt32.toNat_toUInt64, toNat_ordinalBit]
    cases wide with
    | false => exact and_two_pow_of_lt (k := 31) h
    | true => exact and_two_pow_of_lt (k := 63) (by omega)
  rw [bne_eq_false_iff_eq, ← UInt64.toNat_inj, hand]
  rfl

theorem address_word (h : address.toNat < 0x80000000) :
    ((named address hint name).word wide &&& 0x7FFFFFFF).toUInt32 = address := by
  rw [← UInt32.toNat_inj, UInt64.toNat_toUInt32, UInt64.toNat_and, word, UInt32.toNat_toUInt64]
  have hand : address.toNat &&& 0x7FFFFFFF = address.toNat :=
    Nat.and_two_pow_sub_one_of_lt_two_pow (n := 31) h
  change (address.toNat &&& 0x7FFFFFFF) % _ = _
  rw [hand]
  exact Nat.mod_eq_of_lt address.toNat_lt

/-- The reader finds what the thunk asks for. -/
theorem targetOf_word (h : f.Stands m) : ImportEntry.targetOf m (f.word m.wide) = f.target := by
  cases f with
  | ordinal number =>
    rw [ImportEntry.targetOf, if_pos ordinal_and_bit, toUInt16_word, target]
  | named address hint name =>
    obtain ⟨-, hlt, hname, i, hi, hholds⟩ := h
    have hhint : m.file.u16? i = some hint := hholds.left.u16?
    have htext := hholds.right
    rw [length_leBytes] at htext
    rw [ImportEntry.targetOf, named_and_bit hlt, if_neg Bool.false_ne_true, address_word hlt, hi]
    simp only [htext.cstring? hname, hhint, target]

theorem word_ne_zero (h : f.Stands m) : f.word wide ≠ 0 := by
  rw [ne_eq, ← UInt64.toNat_inj]
  cases f with
  | ordinal number =>
    rw [toNat_word_ordinal]
    cases wide <;> simp [mark]
  | named address hint name =>
    rw [word, UInt32.toNat_toUInt64]
    intro hzero
    exact h.1 (UInt32.toNat_inj.1 hzero)

theorem fitsWord_word (f : StoredFunction) : m.FitsWord (f.word m.wide) := by
  cases hwide : m.wide with
  | true => exact .inl hwide
  | false =>
    refine .inr ?_
    cases f with
    | ordinal number =>
      have hlt := number.toNat_lt
      rw [toNat_word_ordinal, mark, if_neg Bool.false_ne_true]
      show number.toNat + 0x80000000 < 0x100000000
      omega
    | named address hint name =>
      rw [word, UInt32.toNat_toUInt64]
      exact address.toNat_lt

end StoredFunction

/-- The absolute address of word `k` of an address table. -/
def slotAddress (m : MappedFile) (addressTable : UInt32) (k : Nat) : UInt64 :=
  if addressTable = 0 then 0
  else UInt64.ofNat (m.imageBase.toNat + addressTable.toNat + k * m.pointerSize)

/-- The functions of a thunk table, in order, each with the word of the address table that is as far
from its beginning. -/
def entriesOf (m : MappedFile) (addressTable : UInt32) (fs : List StoredFunction) :
    List ImportEntry :=
  fs.mapIdx fun k f => { target := f.target, slot := slotAddress m addressTable k }

/-- A thunk table is laid out at offset `i`, with all that its thunks lead to. -/
def FunctionsStand (m : MappedFile) (i : Nat) (fs : List StoredFunction) : Prop :=
  m.file.Holds i (m.wordBytes (fs.map (·.word m.wide))) ∧ ∀ f ∈ fs, f.Stands m

variable {m : MappedFile}

theorem slotOf_eq (m : MappedFile) (addressTable : UInt32) (k : Nat) :
    ImportEntry.slotOf m addressTable k = slotAddress m addressTable k := by
  rw [ImportEntry.slotOf, slotAddress]
  split
  · rfl
  · rw [UInt64.ofNat_add, UInt64.ofNat_add, UInt64.ofNat_toNat, Nat.mul_comm k]
    congr 2
    rw [← UInt64.toNat_inj, UInt32.toNat_toUInt64]
    exact (UInt64.toNat_ofNat_of_lt (Nat.lt_trans addressTable.toNat_lt (by decide))).symm

theorem readAll_of_stand {thunks addressTable : UInt32} {limit i : Nat} {fs : List StoredFunction}
    (hne : thunks ≠ 0) (hi : m.sections.offset? thunks = some i) (h : FunctionsStand m i fs)
    (hlimit : fs.length < limit) :
    ImportEntry.readAll m thunks addressTable limit = .ok (entriesOf m addressTable fs) := by
  obtain ⟨hwords, hstand⟩ := h
  have hpointers : m.pointers i limit = fs.map (·.word m.wide) := by
    refine m.pointers_of_holds hwords ?_ ?_ (by rwa [List.length_map])
    · intro w hw
      obtain ⟨f, -, rfl⟩ := List.mem_map.1 hw
      exact f.fitsWord_word
    · intro hzero
      obtain ⟨f, hf, hword⟩ := List.mem_map.1 hzero
      exact StoredFunction.word_ne_zero (hstand f hf) hword
  rw [ImportEntry.readAll, if_neg hne, MappedFile.offset_eq_ok hi, ok_bind, hpointers, pure_eq_ok]
  refine congrArg Except.ok (List.ext_getElem (by simp [entriesOf]) fun k hk hk' => ?_)
  simp only [entriesOf, List.getElem_mapIdx, List.getElem_map, slotOf_eq]
  rw [StoredFunction.targetOf_word (hstand _ (List.getElem_mem _))]

/-! ## Records -/

/-- The fields of a record, in the order of the file. -/
inductive StoredRecord : ImportKind → Type where
  | regular (lookupTable timestamp forwarderChain name addressTable : UInt32) :
      StoredRecord .regular
  /-- A delay-load record whose addresses lie in the image: the lowest attribute bit is set. -/
  | delayLoaded (attributes name moduleHandle addressTable lookupTable boundTable unloadTable
      timestamp : UInt32) (inImage : attributes &&& 1 ≠ 0) : StoredRecord .delayLoaded

namespace StoredRecord

variable {kind : ImportKind}

/-- The words of a record. -/
def words : StoredRecord kind → List UInt32
  | regular lookupTable timestamp forwarderChain name addressTable =>
    [lookupTable, timestamp, forwarderChain, name, addressTable]
  | delayLoaded attributes name moduleHandle addressTable lookupTable boundTable unloadTable
      timestamp _ =>
    [attributes, name, moduleHandle, addressTable, lookupTable, boundTable, unloadTable, timestamp]

/-- The address of the name of the library. -/
def name : StoredRecord kind → UInt32
  | regular _ _ _ name _ => name
  | delayLoaded _ name _ _ _ _ _ _ _ => name

/-- The address of the thunks to look up. -/
def lookupTable : StoredRecord kind → UInt32
  | regular lookupTable _ _ _ _ => lookupTable
  | delayLoaded _ _ _ _ lookupTable _ _ _ _ => lookupTable

/-- The address of the thunks that the loader fills in. -/
def addressTable : StoredRecord kind → UInt32
  | regular _ _ _ _ addressTable => addressTable
  | delayLoaded _ _ _ addressTable _ _ _ _ _ => addressTable

/-- The address of the thunks that list the functions: in a regular record without a lookup table
those that the loader fills in. -/
def thunks : StoredRecord kind → UInt32
  | regular lookupTable _ _ _ addressTable => if lookupTable ≠ 0 then lookupTable else addressTable
  | delayLoaded _ _ _ _ lookupTable _ _ _ _ => lookupTable

/-- The time stamp. -/
def timestamp : StoredRecord kind → UInt32
  | regular _ timestamp _ _ _ => timestamp
  | delayLoaded _ _ _ _ _ _ _ timestamp _ => timestamp

/-- The forwarder chain, which only regular records have. -/
def forwarderChain : StoredRecord kind → UInt32
  | regular _ _ forwarderChain _ _ => forwarderChain
  | delayLoaded .. => 0

/-- The bytes of a record. -/
def bytes (r : StoredRecord kind) : List UInt8 := r.words.flatMap (leBytes 4 ·.toNat)

theorem length_bytes (r : StoredRecord kind) : r.bytes.length = kind.recordSize := by
  cases r <;> rfl

/-- The record as the reader should see it. -/
def record (r : StoredRecord kind) : ImportRecord where
  name? := if r.name = 0 then none else some r.name
  lookupTable := r.lookupTable
  timestamp := r.timestamp
  forwarderChain := r.forwarderChain
  addressTable := r.addressTable
  thunks := r.thunks

variable {m : MappedFile} {i : Nat} {r : StoredRecord kind}

theorem word_of_holds (h : m.file.Holds i r.bytes) {k : Nat} (hk : k < r.words.length) :
    ImportRecord.word m.file (i + 4 * k) = r.words[k] := by
  rw [ImportRecord.word, Holds.u32?_word h hk, List.getElem?_eq_getElem hk, Option.getD_some]

/-- The reader finds the fields of a record. -/
theorem read_of_holds (h : m.file.Holds i r.bytes) : ImportRecord.read m i kind = r.record := by
  cases r with
  | regular lookupTable timestamp forwarderChain name addressTable =>
    have hlookup : ImportRecord.word m.file i = lookupTable :=
      word_of_holds h (k := 0) (show 0 < 5 by decide)
    have htimestamp : ImportRecord.word m.file (i + 4) = timestamp :=
      word_of_holds h (k := 1) (show 1 < 5 by decide)
    have hforwarder : ImportRecord.word m.file (i + 8) = forwarderChain :=
      word_of_holds h (k := 2) (show 2 < 5 by decide)
    have hname : ImportRecord.word m.file (i + 12) = name :=
      word_of_holds h (k := 3) (show 3 < 5 by decide)
    have haddress : ImportRecord.word m.file (i + 16) = addressTable :=
      word_of_holds h (k := 4) (show 4 < 5 by decide)
    rw [ImportRecord.read, ImportRecord.regular, hlookup, htimestamp, hforwarder, hname, haddress,
      record, thunks, ite_not]
    rfl
  | delayLoaded attributes name moduleHandle addressTable lookupTable boundTable unloadTable
      timestamp inImage =>
    have hattributes : ImportRecord.word m.file i = attributes :=
      word_of_holds h (k := 0) (show 0 < 8 by decide)
    have hname : ImportRecord.word m.file (i + 4) = name :=
      word_of_holds h (k := 1) (show 1 < 8 by decide)
    have haddress : ImportRecord.word m.file (i + 12) = addressTable :=
      word_of_holds h (k := 3) (show 3 < 8 by decide)
    have hlookup : ImportRecord.word m.file (i + 16) = lookupTable :=
      word_of_holds h (k := 4) (show 4 < 8 by decide)
    have htimestamp : ImportRecord.word m.file (i + 28) = timestamp :=
      word_of_holds h (k := 7) (show 7 < 8 by decide)
    have habsolute : (attributes &&& 1 == 0) = false := beq_false_of_ne inImage
    have hrebase : ∀ address, ImportRecord.rebase false m.imageBase address = address :=
      fun _ => rfl
    simp only [ImportRecord.read, ImportRecord.delayLoaded, hattributes, hname, haddress, hlookup,
      htimestamp, habsolute, hrebase]
    rfl

end StoredRecord

/-! ## Libraries -/

/-- A record with the name of its library and the functions that are wanted of it. -/
structure StoredLibrary (kind : ImportKind) where
  record : StoredRecord kind
  dllName : String
  functions : List StoredFunction

namespace StoredLibrary

variable {kind : ImportKind}

/-- The name of the library is where the record says. -/
def NameStands (m : MappedFile) (l : StoredLibrary kind) : Prop :=
  IsName 256 l.dllName ∧
    ∃ i, m.sections.offset? l.record.name = some i ∧ m.file.Holds i (nameBytes l.dllName)

/-- The functions of the library are where the record says. -/
def ThunksStand (m : MappedFile) (l : StoredLibrary kind) : Prop :=
  ∃ i, m.sections.offset? l.record.thunks = some i ∧ FunctionsStand m i l.functions

/-- What a record leads to is there: a name, unless its address is zero, and a thunk table, unless
its address is zero. -/
structure Stands (m : MappedFile) (l : StoredLibrary kind) : Prop where
  /-- Only the record that ends the array is all zeros. -/
  not_end : ∃ x ∈ l.record.bytes, x ≠ 0
  name_stands : l.record.name ≠ 0 → l.NameStands m
  thunks_stand : l.record.name ≠ 0 → l.record.thunks ≠ 0 → l.ThunksStand m

/-- What the reader should find. -/
def descriptor (m : MappedFile) (l : StoredLibrary kind) : ImportDescriptor where
  dllName := l.dllName
  lookupTable := l.record.lookupTable
  timestamp := l.record.timestamp
  forwarderChain := l.record.forwarderChain
  nameAddress := l.record.name
  addressTable := l.record.addressTable
  kind
  entries := if l.record.thunks = 0 then [] else entriesOf m l.record.addressTable l.functions

/-- The libraries that have a name, in order. -/
def descriptors (m : MappedFile) (ls : List (StoredLibrary kind)) : List ImportDescriptor :=
  (ls.filter (·.record.name ≠ 0)).map (·.descriptor m)

/-- The number of functions wanted of all libraries. -/
def functionCount (ls : List (StoredLibrary kind)) : Nat := (ls.map (·.functions.length)).sum

/-- The records, one after the other, and the record of zeros that ends them. -/
def recordBytes (ls : List (StoredLibrary kind)) : List UInt8 :=
  ls.flatMap (·.record.bytes) ++ List.replicate kind.recordSize 0

variable {m : MappedFile} {l : StoredLibrary kind} {ls : List (StoredLibrary kind)}

@[simp] theorem functionCount_cons :
    functionCount (l :: ls) = l.functions.length + functionCount ls := rfl

theorem descriptors_cons_of_eq (h : l.record.name = 0) :
    descriptors m (l :: ls) = descriptors m ls := by
  simp [descriptors, h]

theorem descriptors_cons_of_ne (h : l.record.name ≠ 0) :
    descriptors m (l :: ls) = l.descriptor m :: descriptors m ls := by
  simp [descriptors, h]

theorem length_recordBytes (ls : List (StoredLibrary kind)) :
    (recordBytes ls).length = kind.recordSize * (ls.length + 1) := by
  rw [recordBytes, List.length_append, List.length_replicate, Nat.mul_succ,
    length_parts (fun l => l.record.length_bytes)]

/-- The reader's bound on the number of records is never met: the record that ends the array has
room in the file as well. -/
theorem length_lt_of_holds {i : Nat} (h : m.file.Holds i (recordBytes ls)) :
    ls.length < (m.file.size - i) / kind.recordSize := by
  have hpos : 0 < kind.recordSize := by cases kind <;> decide
  have hlength := length_recordBytes ls
  have hne : recordBytes ls ≠ [] := by
    rw [← List.length_pos_iff, hlength]
    exact Nat.mul_pos hpos (Nat.succ_pos _)
  have hfits := h.fits_of_ne_nil hne
  rw [hlength] at hfits
  rw [Nat.lt_iff_add_one_le, Nat.le_div_iff_mul_le hpos, Nat.mul_comm]
  omega

theorem length_entries_le (m : MappedFile) (l : StoredLibrary kind) :
    (l.descriptor m).entries.length ≤ l.functions.length := by
  rw [descriptor]
  dsimp only
  split
  · exact Nat.zero_le _
  · rw [entriesOf, List.length_mapIdx]

theorem readDescriptor_of_stands (h : l.Stands m) (hname : l.record.name ≠ 0) {budget : Nat}
    (hbudget : l.functions.length < budget) :
    ImportTable.readDescriptor m kind l.record.record l.record.name budget =
      .ok (l.descriptor m) := by
  obtain ⟨hdll, i, hi, hholds⟩ := h.name_stands hname
  have hcstring : m.cstring l.record.name 256 = .ok l.dllName := by
    rw [MappedFile.cstring, MappedFile.offset_eq_ok hi, ok_bind, cstring, hholds.cstring? hdll,
      orFault_some]
  have hentries : ImportEntry.readAll m l.record.thunks l.record.addressTable budget =
      .ok (l.descriptor m).entries := by
    rw [descriptor]
    dsimp only
    split
    case isTrue hzero =>
      rw [ImportEntry.readAll, if_pos hzero]
    case isFalse hne =>
      obtain ⟨j, hj, hfunctions⟩ := h.thunks_stand hname hne
      exact readAll_of_stand hne hj hfunctions hbudget
  rw [ImportTable.readDescriptor, hcstring, ok_bind]
  change (ImportEntry.readAll m l.record.thunks l.record.addressTable budget >>= _) = _
  rw [hentries, ok_bind]
  rfl

section Step

variable {n i budget : Nat} {found : Array ImportDescriptor}

/-- A record of zeros ends the array. -/
theorem readRecords_of_zeros (h : m.file.Holds i (List.replicate kind.recordSize 0)) :
    ImportTable.readRecords m kind (n + 1) i budget found = .ok found := by
  have hend : m.file.isZero i kind.recordSize := by
    have hiff := h.isZero_iff
    rw [List.length_replicate] at hiff
    exact hiff.2 fun x hx => List.eq_of_mem_replicate hx
  rw [ImportTable.readRecords, hend, Bool.true_or, if_pos rfl]

/-- A record without a name is passed over. Any other takes its functions off the budget. -/
theorem readRecords_of_record (h : m.file.Holds i l.record.bytes) (hl : l.Stands m)
    (hbudget : l.functions.length < budget) :
    ImportTable.readRecords m kind (n + 1) i budget found =
      if l.record.name = 0 then
        ImportTable.readRecords m kind n (i + kind.recordSize) budget found
      else
        ImportTable.readRecords m kind n (i + kind.recordSize)
          (budget - (l.descriptor m).entries.length) (found.push (l.descriptor m)) := by
  have hgoes : (m.file.isZero i kind.recordSize || budget == 0) = false := by
    obtain ⟨x, hx, hne⟩ := hl.not_end
    have hiff := h.isZero_iff
    rw [StoredRecord.length_bytes] at hiff
    have hleft : (budget == 0) = false := beq_false_of_ne (by omega)
    rw [hleft, Bool.or_false, ← Bool.not_eq_true, hiff]
    exact fun hzero => hne (hzero x hx)
  rw [ImportTable.readRecords, hgoes, if_neg Bool.false_ne_true, StoredRecord.read_of_holds h]
  by_cases hname : l.record.name = 0
  · have hnone : l.record.record.name? = none := if_pos hname
    simp only [hnone, if_pos hname]
  · have hsome : l.record.record.name? = some l.record.name := if_neg hname
    have hread := readDescriptor_of_stands hl hname hbudget
    simp only [hsome, hread, if_neg hname]

/-- The records are read up to the one that ends them, and the budget is never spent. -/
theorem readRecords_of_stand (h : m.file.Holds i (recordBytes ls)) (hstand : ∀ l ∈ ls, l.Stands m)
    (hn : ls.length < n) (hbudget : functionCount ls < budget) :
    ImportTable.readRecords m kind n i budget found =
      .ok (found ++ (descriptors m ls).toArray) := by
  induction ls generalizing n i budget found with
  | nil =>
    obtain ⟨rest, rfl⟩ : ∃ rest, n = rest + 1 := ⟨n - 1, by omega⟩
    rw [readRecords_of_zeros h]
    simp [descriptors]
  | cons l ls ih =>
    rw [List.length_cons] at hn
    rw [functionCount_cons] at hbudget
    rw [recordBytes, List.flatMap_cons, List.append_assoc] at h
    obtain ⟨rest, rfl⟩ : ∃ rest, n = rest + 1 := ⟨n - 1, by omega⟩
    have hl : l.Stands m := hstand l List.mem_cons_self
    have hrest : ∀ l ∈ ls, l.Stands m := fun l hl => hstand l (List.mem_cons_of_mem _ hl)
    have hothers := h.right
    rw [StoredRecord.length_bytes] at hothers
    -- the functions found are no more than those wanted, so that what is left suffices for the rest
    have hspent := length_entries_le m l
    rw [readRecords_of_record h.left hl (by omega)]
    split
    case isTrue hname =>
      rw [descriptors_cons_of_eq hname]
      exact ih hothers hrest (by omega) (by omega)
    case isFalse hname =>
      rw [descriptors_cons_of_ne hname, ih hothers hrest (by omega) (by omega)]
      simp

end Step

/-- The array of a directory is laid out where the directory points. Without a directory there are
no libraries. -/
def DirectoryStands (m : MappedFile) (dir : DataDirectory) (ls : List (StoredLibrary kind)) :
    Prop :=
  if dir.isPresent then
    ∃ i, m.sections.offset? dir.address = some i ∧ m.file.Holds i (recordBytes ls) ∧
      ∀ l ∈ ls, l.Stands m
  else
    ls = []

theorem readDirectory_of_stands {dir : DataDirectory} {budget : Nat} (h : DirectoryStands m dir ls)
    (hbudget : functionCount ls < budget) :
    ImportTable.readDirectory m kind dir budget = .ok (descriptors m ls) := by
  rw [DirectoryStands] at h
  rw [ImportTable.readDirectory]
  split at h
  case isTrue hpresent =>
    obtain ⟨i, hi, hholds, hstand⟩ := h
    have hcount : ls.length < (m.file.size - i) / kind.recordSize :=
      length_lt_of_holds hholds
    rw [if_pos hpresent, MappedFile.offset_eq_ok hi, ok_bind,
      readRecords_of_stand hholds hstand hcount hbudget, ok_bind]
    simp
  case isFalse habsent =>
    rw [if_neg habsent, h]
    rfl

theorem length_entriesOf_descriptors_le (m : MappedFile) (ls : List (StoredLibrary kind)) :
    ((descriptors m ls).flatMap (·.entries)).length ≤ functionCount ls := by
  induction ls with
  | nil => exact Nat.zero_le _
  | cons l ls ih =>
    have hfirst := length_entries_le m l
    rw [functionCount_cons]
    by_cases hname : l.record.name = 0
    · rw [descriptors_cons_of_eq hname]
      omega
    · rw [descriptors_cons_of_ne hname, List.flatMap_cons, List.length_append]
      omega

/-- Reading both directories gives back the libraries that have a name, with their functions: the
regular ones, then those that are loaded at the first call. -/
theorem parse_of_stand {regularDir delayDir : DataDirectory}
    {regular : List (StoredLibrary .regular)} {delayed : List (StoredLibrary .delayLoaded)}
    {limit : Nat} (hregular : DirectoryStands m regularDir regular)
    (hdelayed : DirectoryStands m delayDir delayed)
    (hlimit : functionCount regular + functionCount delayed < limit) :
    ImportTable.parse m regularDir delayDir limit =
      .ok ⟨descriptors m regular ++ descriptors m delayed⟩ := by
  have hspent := length_entriesOf_descriptors_le m regular
  have hfirst : ImportTable.readDirectory m .regular regularDir limit =
      .ok (descriptors m regular) := readDirectory_of_stands hregular (by omega)
  have hsecond : ImportTable.readDirectory m .delayLoaded delayDir
      (limit - ((descriptors m regular).flatMap (·.entries)).length) =
      .ok (descriptors m delayed) := readDirectory_of_stands hdelayed (by omega)
  simp only [ImportTable.parse, hfirst, hsecond, ok_bind, pure_eq_ok]

/-- A section that shows the first bytes of a file. -/
def sampleSection (address size : UInt32) : SectionHeader where
  rawName := Vector.replicate 8 0
  virtualSize := size
  virtualAddress := address
  rawSize := size
  rawOffset := 0
  relocationOffset := 0
  lineNumberOffset := 0
  relocationCount := 0
  lineNumberCount := 0
  characteristics := 0

/-- A number, and a name. -/
def sampleFunctions : List StoredFunction := [.ordinal 5, .named 0x106E 3 "f"]

/-- A library without a lookup table. -/
def sampleRegular : StoredLibrary .regular :=
  ⟨.regular 0 7 0xFFFFFFFF 0x1068 0x1072, "k.dll", sampleFunctions⟩

/-- The same library and functions, without a table that the loader fills in. -/
def sampleDelayed : StoredLibrary .delayLoaded :=
  ⟨.delayLoaded 1 0x1068 0 0 0x1072 0 0 0 (by decide), "k.dll", sampleFunctions⟩

/-- A file that is one section, with an array of each kind. -/
def sampleFile : MappedFile where
  file := ⟨⟨recordBytes [sampleRegular] ++ recordBytes [sampleDelayed] ++ nameBytes "k.dll" ++
    [3, 0] ++ nameBytes "f" ++ [5, 0, 0, 0x80, 0x6E, 0x10, 0, 0, 0, 0, 0, 0]⟩⟩
  sections := .ofHeaders [sampleSection 0x1000 0x7E]
  imageBase := 0x400000

theorem functionsStand_sample : FunctionsStand sampleFile 0x72 sampleFunctions := by
  refine ⟨by decide +kernel, fun f hf => ?_⟩
  simp only [sampleFunctions, List.mem_cons, List.not_mem_nil, or_false] at hf
  rcases hf with rfl | rfl
  · trivial
  · exact ⟨by decide, by decide, by decide, 0x6E, by decide +kernel, by decide +kernel⟩

theorem stands_sampleRegular : sampleRegular.Stands sampleFile where
  not_end := ⟨7, by decide, by decide⟩
  name_stands _ := ⟨by decide, 0x68, by decide +kernel, by decide +kernel⟩
  thunks_stand _ _ := ⟨0x72, by decide +kernel, functionsStand_sample⟩

theorem stands_sampleDelayed : sampleDelayed.Stands sampleFile where
  not_end := ⟨1, by decide, by decide⟩
  name_stands _ := ⟨by decide, 0x68, by decide +kernel, by decide +kernel⟩
  thunks_stand _ _ := ⟨0x72, by decide +kernel, functionsStand_sample⟩

theorem parse_of_stand_sample :
    DirectoryStands sampleFile ⟨0x1000, 0x28⟩ [sampleRegular] ∧
      DirectoryStands sampleFile ⟨0x1028, 0x40⟩ [sampleDelayed] ∧
      functionCount [sampleRegular] + functionCount [sampleDelayed] < 5 ∧
      ImportTable.parse sampleFile ⟨0x1000, 0x28⟩ ⟨0x1028, 0x40⟩ 5 =
        .ok ⟨[sampleRegular.descriptor sampleFile, sampleDelayed.descriptor sampleFile]⟩ := by
  have hregular : DirectoryStands sampleFile ⟨0x1000, 0x28⟩ [sampleRegular] := by
    rw [DirectoryStands, if_pos (by decide)]
    refine ⟨0, by decide +kernel, by decide +kernel, ?_⟩
    simpa using stands_sampleRegular
  have hdelayed : DirectoryStands sampleFile ⟨0x1028, 0x40⟩ [sampleDelayed] := by
    rw [DirectoryStands, if_pos (by decide)]
    refine ⟨0x28, by decide +kernel, by decide +kernel, ?_⟩
    simpa using stands_sampleDelayed
  have hlimit : functionCount [sampleRegular] + functionCount [sampleDelayed] < 5 := by decide
  exact ⟨hregular, hdelayed, hlimit, parse_of_stand hregular hdelayed hlimit⟩

/-! ### Address zero in a section

A section may begin at address zero. What a record finds there is not read. -/

/-- A library whose name is at address zero, and one whose functions are. -/
def librariesAtZero : List (StoredLibrary .regular) :=
  [⟨.regular 8 0 0 0 8, "P", [.ordinal 1]⟩, ⟨.regular 0 0 0 0x4C 0, "k", [.named 0x50 1 "f"]⟩]

/-- A file that is one section at address zero. Its first word is a name, and a thunk too. -/
def fileAtZero : MappedFile where
  file := ⟨⟨[0x50, 0, 0, 0, 0, 0, 0, 0] ++ [1, 0, 0, 0x80, 0, 0, 0, 0] ++
    recordBytes librariesAtZero ++ nameBytes "k" ++ [0, 0] ++ [1, 0] ++ nameBytes "f"⟩⟩
  sections := .ofHeaders [sampleSection 0 0x54]

/-- Names and functions at address zero stand in the file as any others do, and are lost. -/
theorem libraries_at_zero_lost :
    (∀ l ∈ librariesAtZero,
      (∃ x ∈ l.record.bytes, x ≠ 0) ∧ l.NameStands fileAtZero ∧ l.ThunksStand fileAtZero) ∧
      fileAtZero.sections.offset? 0x10 = some 0x10 ∧
      fileAtZero.file.Holds 0x10 (recordBytes librariesAtZero) ∧
      functionCount librariesAtZero < 10 ∧
      librariesAtZero.map (fun l => (l.dllName, l.functions.map (·.target))) =
        [("P", [.ordinal 1]), ("k", [.named (some "f") (some 1)])] ∧
      (ImportTable.parse fileAtZero ⟨0x10, 0x3C⟩ ⟨0, 0⟩ 10).toOption.map
        (·.descriptors.map fun d => (d.dllName, d.entries.map (·.target))) = some [("k", [])] := by
  refine ⟨fun l hl => ?_, by decide +kernel, by decide +kernel, by decide +kernel, rfl,
    by decide +kernel⟩
  simp only [librariesAtZero, List.mem_cons, List.not_mem_nil, or_false] at hl
  rcases hl with rfl | rfl
  · refine ⟨⟨8, by decide, by decide⟩, ⟨by decide, 0, by decide +kernel, by decide +kernel⟩, 8,
      by decide +kernel, by decide +kernel, ?_⟩
    simp [StoredFunction.Stands]
  · refine ⟨⟨0x4C, by decide, by decide⟩, ⟨by decide, 0x4C, by decide +kernel, by decide +kernel⟩,
      0, by decide +kernel, by decide +kernel, ?_⟩
    simp only [List.mem_singleton, forall_eq]
    exact ⟨by decide, by decide, by decide, 0x50, by decide +kernel, by decide +kernel⟩

end StoredLibrary

end ImageTriage
