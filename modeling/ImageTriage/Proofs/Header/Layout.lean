import ImageTriage.Proofs.Bytes.Fields
import ImageTriage.Proofs.Header.Chain

/-!
# Headers laid out in a file

A `StoredImage` is everything that the headers of an image say, with the bytes between and behind
them. Its file is the rows of fields one after the other: the DOS header, whatever fills the room up
to the offset that it names, the signature, the COFF header, the optional header in either of its
layouts, the data directories and the section headers.

Reading the file gives back what was stored (`parse_file`). Since every field is a row entry of its
own, whatever the others say has no bearing on it.
-/

namespace ImageTriage

open Bytes HeaderField

variable {b : Bytes} {start : Nat}

/-! ## Rows of fields -/

/-- The fields of the DOS header. Two runs of bytes in it mean nothing. -/
def DosHeader.fields (h : DosHeader) (reserved : Vector UInt8 8) (reservedMore : Vector UInt8 20) :
    List HeaderField :=
  [.u16 h.magic, .u16 h.lastPageBytes, .u16 h.pages, .u16 h.relocations, .u16 h.headerParagraphs,
    .u16 h.minParagraphs, .u16 h.maxParagraphs, .u16 h.stackSegment, .u16 h.stackPointer,
    .u16 h.checksum, .u16 h.instructionPointer, .u16 h.codeSegment, .u16 h.relocationTable,
    .u16 h.overlayNumber, .raw reserved.toList, .u16 h.oemId, .u16 h.oemInfo,
    .raw reservedMore.toList, .u32 h.headerOffset]

/-- The letters that open the image headers. -/
def PeHeaders.mark : List UInt8 := [0x50, 0x45, 0, 0]

/-- The fields of the COFF header of a machine with the given code. -/
def CoffHeader.fields (h : CoffHeader) (machineCode : UInt16) : List HeaderField :=
  [.u16 machineCode, .u16 h.sectionCount, .u32 h.timestamp, .u32 h.symbolTable, .u32 h.symbolCount,
    .u16 h.optionalSize, .u16 h.characteristics]

namespace OptionalHeader

/-- The image base and the sizes of stack and heap, which are as wide as an address. -/
def addresses (h : OptionalHeader) : List UInt64 :=
  [h.imageBase, h.stackReserve, h.stackCommit, h.heapReserve, h.heapCommit]

/-- The fields that both layouts begin with. -/
def firstFields (h : OptionalHeader) : List HeaderField :=
  [.u8 h.linkerMajor, .u8 h.linkerMinor, .u32 h.codeSize, .u32 h.initializedSize,
    .u32 h.uninitializedSize, .u32 h.entryPoint, .u32 h.codeBase]

/-- The fields from the section alignment on that both layouts have, for a subsystem with the given
code. -/
def middleFields (h : OptionalHeader) (subsystemCode : UInt16) : List HeaderField :=
  [.u32 h.sectionAlignment, .u32 h.fileAlignment, .u16 h.systemMajor, .u16 h.systemMinor,
    .u16 h.imageMajor, .u16 h.imageMinor, .u16 h.subsystemMajor, .u16 h.subsystemMinor,
    .u32 h.win32Version, .u32 h.imageSize, .u32 h.headersSize, .u32 h.checksum, .u16 subsystemCode,
    .u16 h.characteristics]

/-- The fields of the optional header in front of the data directories. -/
def fields (h : OptionalHeader) (subsystemCode : UInt16) : List HeaderField :=
  match h.layout with
  | .pe32 baseOfData =>
    .u16 0x10B :: (h.firstFields ++ [.u32 baseOfData, .u32 h.imageBase.toUInt32] ++
      h.middleFields subsystemCode ++
      [.u32 h.stackReserve.toUInt32, .u32 h.stackCommit.toUInt32, .u32 h.heapReserve.toUInt32,
        .u32 h.heapCommit.toUInt32, .u32 h.loaderFlags, .u32 h.directoryCount])
  | .pe32Plus =>
    .u16 0x20B :: (h.firstFields ++ [.u64 h.imageBase] ++ h.middleFields subsystemCode ++
      [.u64 h.stackReserve, .u64 h.stackCommit, .u64 h.heapReserve, .u64 h.heapCommit,
        .u32 h.loaderFlags, .u32 h.directoryCount])

end OptionalHeader

/-- The fields of a data directory. -/
def DataDirectory.fields (d : DataDirectory) : List HeaderField := [.u32 d.address, .u32 d.size]

/-- The fields of a section header. -/
def SectionHeader.fields (h : SectionHeader) : List HeaderField :=
  [.raw h.rawName.toList, .u32 h.virtualSize, .u32 h.virtualAddress, .u32 h.rawSize,
    .u32 h.rawOffset, .u32 h.relocationOffset, .u32 h.lineNumberOffset, .u16 h.relocationCount,
    .u16 h.lineNumberCount, .u32 h.characteristics]

/-! ## Reading the rows -/

namespace DosHeader

variable {h : DosHeader} {reserved : Vector UInt8 8} {reservedMore : Vector UInt8 20}

theorem rowWidth_fields : rowWidth (h.fields reserved reservedMore) = 64 := by
  simp [rowWidth, fields, width]

/-- The reader finds the fields of a DOS header. -/
theorem parse_of_holds (hrow : b.Holds 0 (rowBytes (h.fields reserved reservedMore)))
    (hmagic : h.magic = 0x5A4D) : parse b = .ok h := by
  have hfits := hrow.fits (Nat.zero_le _)
  rw [length_rowBytes, rowWidth_fields] at hfits
  have hlong : ¬ b.size < size := Nat.not_lt.2 hfits
  have hmark : ¬ h.magic ≠ mark := fun hne => hne hmagic
  have hreads := readsAll_of_holds hrow
  simp only [fields, ReadsAll, Reads, width, Vector.length_toList, Nat.reduceAdd, and_true]
    at hreads
  simp only [parse, if_neg hlong, Header.u16, Header.u32, hreads, orFault_some, ok_bind,
    if_neg hmark, pure_eq_ok]

end DosHeader

namespace CoffHeader

variable {h : CoffHeader} {machineCode : UInt16}

theorem rowWidth_fields : rowWidth (h.fields machineCode) = 20 := rfl

/-- The reader finds the fields of a COFF header. -/
theorem parse_of_holds (hrow : b.Holds start (rowBytes (h.fields machineCode)))
    (hfits : start + 20 ≤ b.size) (hmachine : h.machine = .ofWord machineCode) :
    parse b start = .ok h := by
  have hlong : ¬ b.size < start + size := Nat.not_lt.2 hfits
  have hreads := readsAll_of_holds hrow
  simp only [fields, ReadsAll, Reads, width, Nat.add_assoc, Nat.reduceAdd, and_true] at hreads
  simp only [parse, if_neg hlong, Header.u16, Header.u32, hreads, orFault_some, ok_bind, pure_eq_ok,
    ← hmachine]

end CoffHeader

namespace OptionalHeader

variable {h : OptionalHeader} {subsystemCode : UInt16}

theorem rowWidth_fields : rowWidth (h.fields subsystemCode) = h.layout.fixedSize := by
  rw [fields]
  split
  next hlayout =>
    simp [rowWidth, firstFields, middleFields, width, hlayout, OptionalLayout.fixedSize]
  next hlayout =>
    simp [rowWidth, firstFields, middleFields, width, hlayout, OptionalLayout.fixedSize]

theorem toUInt64_toUInt32 {v : UInt64} (hv : v.toNat < UInt32.size) :
    v.toUInt32.toUInt64 = v := by
  rw [← UInt64.toNat_inj, UInt32.toNat_toUInt64, UInt64.toNat_toUInt32]
  exact Nat.mod_eq_of_lt hv

variable {size : UInt16}

section Row

variable (hrow : b.Holds start (rowBytes (h.fields subsystemCode)))
  (hfits : start + size.toNat ≤ b.size) (hsubsystem : h.subsystem = .ofWord subsystemCode)
include hrow hfits hsubsystem

theorem parse_of_holds_pe32 {baseOfData : UInt32} (hlayout : h.layout = .pe32 baseOfData)
    (hsize : 96 ≤ size.toNat) (hnarrow : ∀ v ∈ h.addresses, v.toNat < UInt32.size) :
    parse b start size = .ok h := by
  have hstated : ¬ size.toNat < 2 := by omega
  have hlong : ¬ b.size < start + size.toNat := by omega
  have hfixed : ¬ size.toNat < 96 := by omega
  have htail : start + 96 - 8 = start + 88 := rfl
  have hwidened : ∀ v ∈ h.addresses, v.toUInt32.toUInt64 = v := fun v hv =>
    toUInt64_toUInt32 (hnarrow v hv)
  simp only [addresses, List.forall_mem_cons, List.not_mem_nil, false_implies, implies_true,
    and_true] at hwidened
  have hmap : ∀ v : UInt32, (·.toUInt64) <$> (.ok v : Except Fault UInt32) = .ok v.toUInt64 :=
    fun _ => rfl
  -- what stands at the offset of each field, computed from the widths of the fields before it
  have hreads := readsAll_of_holds hrow
  simp only [fields, hlayout, firstFields, middleFields, List.cons_append, List.nil_append,
    ReadsAll, Reads, width, Nat.add_assoc, Nat.reduceAdd, and_true] at hreads
  simp only [parse, if_neg hstated, if_neg hlong, if_neg hfixed, parseFields, sizeField,
    OptionalLayout.magic, OptionalLayout.is64Bit, OptionalLayout.fixedSize, checksumOffset, htail,
    Header.u8, Header.u16, Header.u32, Nat.add_assoc, Nat.reduceMul, Nat.reduceAdd, hreads,
    orFault_some, ok_bind, pure_eq_ok, if_true, Bool.false_eq_true, if_false, hmap,
    hwidened, ← hsubsystem, ← hlayout]

theorem parse_of_holds_pe32Plus (hlayout : h.layout = .pe32Plus) (hsize : 112 ≤ size.toNat) :
    parse b start size = .ok h := by
  have hstated : ¬ size.toNat < 2 := by omega
  have hlong : ¬ b.size < start + size.toNat := by omega
  have hfixed : ¬ size.toNat < 112 := by omega
  have hmagic : ¬ (0x20B : UInt16) = 0x10B := by decide
  have htail : start + 112 - 8 = start + 104 := rfl
  have hreads := readsAll_of_holds hrow
  simp only [fields, hlayout, firstFields, middleFields, List.cons_append, List.nil_append,
    ReadsAll, Reads, width, Nat.add_assoc, Nat.reduceAdd, and_true] at hreads
  simp only [parse, if_neg hstated, if_neg hlong, if_neg hfixed, parseFields, sizeField,
    OptionalLayout.magic, OptionalLayout.is64Bit, OptionalLayout.fixedSize, checksumOffset, htail,
    Header.u8, Header.u16, Header.u32, Header.u64, Nat.add_assoc, Nat.reduceMul, Nat.reduceAdd,
    hreads, orFault_some, ok_bind, pure_eq_ok, if_true, if_neg hmagic, ← hsubsystem, ← hlayout]

/-- The reader finds the fields of an optional header. In the narrow layout the image base and the
sizes of stack and heap must fit into 32 bits. -/
theorem parse_of_holds (hsize : h.layout.fixedSize ≤ size.toNat)
    (hnarrow : h.is64Bit = false → ∀ v ∈ h.addresses, v.toNat < UInt32.size) :
    parse b start size = .ok h := by
  cases hlayout : h.layout with
  | pe32 baseOfData =>
    rw [hlayout, OptionalLayout.fixedSize] at hsize
    have hwidth : h.is64Bit = false := by rw [is64Bit, hlayout, OptionalLayout.is64Bit]
    exact parse_of_holds_pe32 hrow hfits hsubsystem hlayout hsize (hnarrow hwidth)
  | pe32Plus =>
    rw [hlayout, OptionalLayout.fixedSize] at hsize
    exact parse_of_holds_pe32Plus hrow hfits hsubsystem hlayout hsize

end Row

end OptionalHeader

namespace DataDirectories

variable {ds : List DataDirectory}

/-- The bytes of a row of data directories. -/
def rowBytes (ds : List DataDirectory) : List UInt8 :=
  ds.flatMap fun d => HeaderField.rowBytes d.fields

theorem length_rowBytes (ds : List DataDirectory) : (rowBytes ds).length = 8 * ds.length :=
  length_parts (fun d => HeaderField.length_rowBytes d.fields) ds

theorem slotAt?_of_holds {d : DataDirectory}
    (hrow : b.Holds start (HeaderField.rowBytes d.fields)) : slotAt? b start = some d := by
  have hreads := readsAll_of_holds hrow
  simp only [DataDirectory.fields, ReadsAll, Reads, width, and_true] at hreads
  simp only [slotAt?, hreads, Option.bind_eq_bind, Option.bind_some, Option.pure_def]

/-- The reader finds the data directories, and fills up with empty ones. -/
theorem parse_of_holds (hrow : b.Holds start (rowBytes ds)) :
    parse b start ds.length = Vector.ofFn fun k => ds[k.val]?.getD ⟨0, 0⟩ := by
  refine Vector.ext fun k hk => ?_
  rw [parse, Vector.getElem_ofFn, Vector.getElem_ofFn]
  dsimp only
  split
  case isTrue hstored =>
    have hslot := hrow.part (n := 8) (fun d => HeaderField.length_rowBytes d.fields) hstored
    have hread : slotAt? b (start + 8 * k) = some ds[k] := slotAt?_of_holds hslot
    rw [hread, List.getElem?_eq_getElem hstored]
  case isFalse hempty =>
    rw [List.getElem?_eq_none (by omega)]
    rfl

end DataDirectories

namespace SectionHeader

variable {hs : List SectionHeader}

/-- The bytes of a row of section headers. -/
def rowBytes (hs : List SectionHeader) : List UInt8 :=
  hs.flatMap fun h => HeaderField.rowBytes h.fields

theorem rowWidth_fields (h : SectionHeader) : rowWidth h.fields = 40 := by
  simp [rowWidth, fields, width]

theorem length_rowBytes_fields (h : SectionHeader) :
    (HeaderField.rowBytes h.fields).length = 40 := by
  rw [HeaderField.length_rowBytes, rowWidth_fields]

theorem length_rowBytes (hs : List SectionHeader) : (rowBytes hs).length = 40 * hs.length :=
  length_parts length_rowBytes_fields hs

/-- The bytes of a name. -/
theorem ofFn_of_holds {name : Vector UInt8 8} (h : b.Holds 0 name.toList) :
    (Vector.ofFn fun k => (b.u8? k.val).getD 0) = name := by
  refine Vector.ext fun k hk => ?_
  have hbyte := holds_iff_getElem?.1 h k (by rwa [Vector.length_toList])
  rw [Nat.zero_add, Vector.getElem?_toList, Vector.getElem?_eq_getElem hk] at hbyte
  rw [Vector.getElem_ofFn, u8?, hbyte, Option.getD_some]

/-- The fields of a section header make the header up. -/
theorem ofBytes_rowBytes (h : SectionHeader) :
    ofBytes (HeaderField.rowBytes h.fields).toByteArray = h := by
  have hreads := readsAll_of_holds (holds_toByteArray (HeaderField.rowBytes h.fields))
  simp only [fields, ReadsAll, Reads, width, Vector.length_toList, Nat.reduceAdd, and_true]
    at hreads
  obtain ⟨hname, hnumbers⟩ := hreads
  simp only [ofBytes, fields, ofFn_of_holds hname, hnumbers, Option.getD_some]

/-- The reader finds the section headers. -/
theorem parseAll_of_holds {count : UInt16} (hrow : b.Holds start (rowBytes hs))
    (hfits : start + 40 * hs.length ≤ b.size) (hcount : count.toNat = hs.length) :
    parseAll b start count = .ok hs := by
  rw [parseAll_of_fits (by rwa [hcount]), hcount]
  refine congrArg Except.ok (List.ext_getElem (by simp) fun k hk hk' => ?_)
  have hpart := hrow.part length_rowBytes_fields hk'
  have hcut := hpart.extract (by omega)
  rw [length_rowBytes_fields] at hcut
  rw [List.getElem_map, List.getElem_range, hcut, ofBytes_rowBytes]

end SectionHeader

/-! ## The whole file -/

/-- What the headers of an image say, with the bytes between and behind them. The DOS header leads
to the others, and each count is that of what is counted. -/
structure StoredImage where
  dos : DosHeader
  dosReserved : Vector UInt8 8
  dosReservedMore : Vector UInt8 20
  /-- What fills the room between the DOS header and the signature. -/
  stub : List UInt8
  machineCode : UInt16
  coff : CoffHeader
  subsystemCode : UInt16
  optional : OptionalHeader
  directories : List DataDirectory
  sections : List SectionHeader
  /-- What follows the section headers. -/
  rest : List UInt8
  dos_magic : dos.magic = 0x5A4D
  headerOffset_eq : dos.headerOffset.toNat = 64 + stub.length
  machine_eq : coff.machine = .ofWord machineCode
  sectionCount_eq : coff.sectionCount.toNat = sections.length
  optionalSize_eq : coff.optionalSize.toNat =
    (if optional.is64Bit then 112 else 96) + 8 * directories.length
  subsystem_eq : optional.subsystem = .ofWord subsystemCode
  /-- The narrow layout has 32 bits for the image base and the sizes of stack and heap. -/
  narrow : optional.is64Bit = false → ∀ v ∈ optional.addresses, v.toNat < UInt32.size
  directories_le : directories.length ≤ 16
  directoryCount_eq : optional.directoryCount.toNat = directories.length

namespace StoredImage

/-- The bytes of the image. -/
def bytes (w : StoredImage) : List UInt8 :=
  rowBytes (w.dos.fields w.dosReserved w.dosReservedMore) ++ w.stub ++ PeHeaders.mark ++
    rowBytes (w.coff.fields w.machineCode) ++ rowBytes (w.optional.fields w.subsystemCode) ++
    DataDirectories.rowBytes w.directories ++ SectionHeader.rowBytes w.sections ++ w.rest

/-- The image as a file. -/
def file (w : StoredImage) : Bytes := w.bytes.toByteArray

/-- What the reader should find: everything that was stored, with empty directories in the slots
that were not. -/
def image (w : StoredImage) (limits : Limits) : Image where
  coff := w.coff
  optional := w.optional
  directories := Vector.ofFn fun k => w.directories[k.val]?.getD ⟨0, 0⟩
  data := w.file
  dos := w.dos
  sections := .ofHeaders w.sections
  limits

variable (w : StoredImage)

theorem data_image (limits : Limits) : (w.image limits).data = w.file := by
  rw [image]

theorem headers_image (limits : Limits) : (w.image limits).sections.headers = w.sections := rfl

variable {w} in
/-- The image with its file and its sections in another form. -/
theorem image_eq_with {data : Bytes} {t : SectionTable} {limits : Limits} (hdata : w.file = data)
    (ht : .ofHeaders w.sections = t) :
    w.image limits = { w.image limits with data, sections := t } := by
  subst hdata ht
  rfl

theorem fixedSize_eq : w.optional.layout.fixedSize = if w.optional.is64Bit then 112 else 96 := by
  rw [OptionalHeader.is64Bit]
  cases w.optional.layout <;> rfl

theorem size_file : w.file.size =
    w.dos.headerOffset.toNat + 24 + w.coff.optionalSize.toNat + 40 * w.sections.length +
      w.rest.length := by
  rw [file, List.size_toByteArray, bytes, w.headerOffset_eq, w.optionalSize_eq, ← w.fixedSize_eq]
  simp only [List.length_append, HeaderField.length_rowBytes, DosHeader.rowWidth_fields,
    CoffHeader.rowWidth_fields, OptionalHeader.rowWidth_fields, DataDirectories.length_rowBytes,
    SectionHeader.length_rowBytes, PeHeaders.mark, List.length_cons, List.length_nil]
  omega

/-- What follows the section headers stands at the end of the file. -/
theorem holds_rest : w.file.Holds (w.dos.headerOffset.toNat + 24 + w.coff.optionalSize.toNat +
    40 * w.sections.length) w.rest := by
  have h : w.file.Holds 0 w.bytes := holds_toByteArray w.bytes
  have hsize := w.size_file
  rw [file, List.size_toByteArray, bytes, List.length_append] at hsize
  rw [bytes] at h
  have hrest := h.right
  rwa [Nat.zero_add, Nat.add_right_cancel hsize] at hrest

/-- Each row stands where the headers before it lead. -/
structure Placed (w : StoredImage) (start : Nat) : Prop where
  dos : w.file.Holds 0 (rowBytes (w.dos.fields w.dosReserved w.dosReservedMore))
  mark : w.file.Holds start PeHeaders.mark
  coff : w.file.Holds (start + 4) (rowBytes (w.coff.fields w.machineCode))
  optional : w.file.Holds (start + 24) (rowBytes (w.optional.fields w.subsystemCode))
  directories : w.file.Holds (start + 24 + w.optional.layout.fixedSize)
    (DataDirectories.rowBytes w.directories)
  sections : w.file.Holds (start + 24 + w.coff.optionalSize.toNat)
    (SectionHeader.rowBytes w.sections)

theorem placed : w.Placed w.dos.headerOffset.toNat := by
  have h : w.file.Holds 0 w.bytes := holds_toByteArray w.bytes
  have hmark : PeHeaders.mark.length = 4 := rfl
  simp only [bytes, holds_append, List.length_append, HeaderField.length_rowBytes,
    DosHeader.rowWidth_fields, CoffHeader.rowWidth_fields, OptionalHeader.rowWidth_fields,
    DataDirectories.length_rowBytes, hmark, Nat.zero_add, ← w.headerOffset_eq] at h
  -- the stub and the bytes behind the sections are not read
  obtain ⟨⟨⟨⟨⟨⟨⟨hdos, -⟩, hmark⟩, hcoff⟩, hoptional⟩, hdirectories⟩, hsections⟩, -⟩ := h
  refine ⟨hdos, hmark, hcoff, hoptional, hdirectories, ?_⟩
  rw [w.optionalSize_eq, ← w.fixedSize_eq, ← Nat.add_assoc]
  exact hsections

theorem parse_headers : PeHeaders.parse w.file w.dos.headerOffset.toNat =
    .ok (w.image {}).toPeHeaders := by
  have hplaced := w.placed
  have hsize := w.size_file
  have hmark : w.file.extract w.dos.headerOffset.toNat (w.dos.headerOffset.toNat + 4) =
      "PE\x00\x00".toUTF8 := hplaced.mark.extract (by omega)
  have hcoff := CoffHeader.parse_of_holds hplaced.coff (by omega) w.machine_eq
  have hfixed : w.optional.layout.fixedSize ≤ w.coff.optionalSize.toNat := by
    rw [w.optionalSize_eq, w.fixedSize_eq]
    omega
  have hoptional := OptionalHeader.parse_of_holds hplaced.optional (by omega) w.subsystem_eq hfixed
    w.narrow
  rw [PeHeaders.parse_of_marked (by omega) hmark, hcoff, ok_bind, hoptional, ok_bind,
    w.directoryCount_eq, DataDirectories.parse_of_holds hplaced.directories]
  rfl

/-- Reading an image gives back everything that its headers say. -/
theorem parse_file (limits : Limits) : Image.parse w.file limits = .ok (w.image limits) := by
  have hplaced := w.placed
  have hsize := w.size_file
  have hdos := DosHeader.parse_of_holds hplaced.dos w.dos_magic
  have hstart : w.dos.headerOffset.toNat + (w.image {}).sectionsOffset =
      w.dos.headerOffset.toNat + 24 + w.coff.optionalSize.toNat := (Nat.add_assoc ..).symm
  have hsections : SectionHeader.parseAll w.file
      (w.dos.headerOffset.toNat + (w.image {}).sectionsOffset) (w.image {}).coff.sectionCount =
        .ok w.sections := by
    rw [hstart]
    exact SectionHeader.parseAll_of_holds hplaced.sections (by omega) w.sectionCount_eq
  simp only [Image.parse, hdos, w.parse_headers, ok_bind, hsections, pure_eq_ok]
  rfl

/-- A library in the narrow layout, with a stub, two directories and a section. -/
def sample : StoredImage where
  dos := ⟨0x5A4D, 1, 2, 3, 4, 5, 6, 7, 8, 9, 10, 11, 12, 13, 14, 15, 66⟩
  dosReserved := Vector.replicate 8 0xAA
  dosReservedMore := Vector.replicate 20 0xBB
  stub := [1, 2]
  machineCode := 0x14C
  coff := ⟨.x86, 1, 16, 17, 18, 112, 0x2102⟩
  subsystemCode := 77
  optional := ⟨.pe32 0x3000, 14, 15, 20, 21, 22, 0x1000, 0x2000, 0x400000, 0x1000, 0x200, 6, 1, 7,
    2, 8, 3, 0, 0x4000, 0x200, 23, .other 77, 0x140, 24, 25, 26, 27, 28, 2⟩
  directories := [⟨0x1100, 40⟩, ⟨0x1200, 60⟩]
  sections := [⟨Vector.ofFn fun k => 0x61 + UInt8.ofNat k, 29, 0x1000, 30, 0x200, 31, 32, 33, 34,
    0x60000020⟩]
  rest := [9]
  dos_magic := rfl
  headerOffset_eq := rfl
  machine_eq := by decide
  sectionCount_eq := rfl
  optionalSize_eq := rfl
  subsystem_eq := by decide
  narrow _ v hv := by
    simp only [OptionalHeader.addresses, List.mem_cons, List.not_mem_nil, or_false] at hv
    rcases hv with rfl | rfl | rfl | rfl | rfl <;> decide
  directories_le := by decide
  directoryCount_eq := rfl

theorem parse_file_sample :
    sample.file.size = 243 ∧ Image.parse sample.file {} = .ok (sample.image {}) :=
  ⟨by rw [size_file]; rfl, parse_file sample {}⟩

end StoredImage

end ImageTriage
