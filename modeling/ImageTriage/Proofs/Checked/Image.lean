import ImageTriage.Image
import ImageTriage.Proofs.Checked.Checksum
import ImageTriage.Proofs.Checked.Debug
import ImageTriage.Proofs.Checked.Exports
import ImageTriage.Proofs.Checked.Header
import ImageTriage.Proofs.Checked.Imports
import ImageTriage.Proofs.Checked.Resources
import ImageTriage.Proofs.Checked.Tables
import ImageTriage.Proofs.Checked.Version
import ImageTriage.Proofs.Header.Layout

/-!
# Checked images

The readers of this folder put together: a machine reads the headers of a file, stores the image,
and answers questions to it. `read_without_trap` says that it does so for every file of less than
2^62 bytes, and that its answers are those of `Image`.
-/

namespace ImageTriage

namespace Checked

/-- An image as it is stored. -/
structure Loaded extends PeHeaders where
  data : Bytes
  dos : DosHeader
  sections : Sections
  limits : Limits

namespace Loaded

/-- What is stored for an image. -/
def of (image : Image) : Loaded where
  toPeHeaders := image.toPeHeaders
  data := image.data
  dos := image.dos
  sections := .of image.sections
  limits := image.limits

/-- `Image.parse` with checked steps. -/
def parse (data : Bytes) (limits : Limits) : Checked Loaded := do
  let dos ← dosHeader data
  let start := dos.headerOffset.toNat
  let headers ← peHeaders data start
  let optional ← add start PeHeaders.optionalOffset
  let first ← add optional headers.coff.optionalSize.toNat
  let declared ← sectionHeaders data first headers.coff.sectionCount
  let sections ← Sections.new declared
  return { headers with data, dos, sections, limits }

/-! ## Questions to an image -/

/-- The file with its addresses. -/
def mapped (image : Loaded) : Mapped where
  file := image.data
  sections := image.sections
  imageBase := image.optional.imageBase
  wide := image.optional.is64Bit

/-- `Image.overlay?` with checked steps. -/
def overlay? (image : Loaded) : Checked (Option Bytes) := do
  let stop := (image.sections.sections.toList.map StoredSection.stop).foldl max 0
  if 0 < stop ∧ stop < image.data.size then
    return some (← cut image.data stop image.data.size)
  else
    return none

/-- The file offset of an address. -/
def offset? (image : Loaded) (address : UInt32) : Checked (Option Nat) :=
  image.sections.offset? address

/-- The address of a file offset. -/
def address? (image : Loaded) (offset : Nat) : Checked (Option UInt32) :=
  image.sections.address? offset

/-- The imported functions. -/
def imports (image : Loaded) : Checked ImportTable :=
  Checked.imports image.mapped (image.directories.get .imports)
    (image.directories.get .delayImports) image.limits.imports

/-- The exported functions. -/
def exports (image : Loaded) : Checked ExportTable :=
  Checked.exports image.mapped (image.directories.get .exports) image.limits.exports

/-- The resources. -/
def resources (image : Loaded) : Checked (List Resource) :=
  Checked.resources image.mapped (image.directories.get .resources) image.limits.resourceDepth
    image.limits.resources

/-- `Resource.data?` with checked steps. -/
def resourceData (image : Loaded) (r : Resource) : Checked (Option Bytes) :=
  match r.offset? with
  | none => pure none
  | some i => pure (range? image.data i (addSaturating i r.size.toNat))

/-- `Image.versionInfo` with checked steps. -/
def versionInfo (image : Loaded) : Checked (Option VersionInfo) := do
  let found ← image.resources
  match found.find? (·.kind == .number ResourceId.version) with
  | none => return none
  | some r =>
    let data ← orFault (.unmappedAddress r.address) (← image.resourceData r)
    return some (← Checked.versionInfo data)

/-- The records of the debug directory. -/
def debugEntries (image : Loaded) : Checked (List DebugEntry) :=
  Checked.debugEntries image.mapped (image.directories.get .debug)

/-- The TLS directory. -/
def tls (image : Loaded) : Checked (Option TlsDirectory) :=
  Checked.tls image.mapped (image.directories.get .tls) image.limits.tlsCallbacks

/-- The base relocations. -/
def relocations (image : Loaded) : Checked (List RelocationBlock) :=
  Checked.relocations image.mapped (image.directories.get .relocations)
    image.limits.relocationBlocks

/-- The certificates. -/
def certificates (image : Loaded) : Checked (List Certificate) :=
  Checked.certificates image.data (image.directories.get .certificates)

/-- `Image.computedChecksum` with checked steps. -/
def computedChecksum (image : Loaded) : Checked UInt32 := do
  let optional ← add image.dos.headerOffset.toNat PeHeaders.optionalOffset
  checksum image.data (← add optional OptionalHeader.checksumOffset)

/-! ## Reading the headers -/

variable {data : Bytes} {limits : Limits} {image : Image}

theorem parse_eq (data : Bytes) (limits : Limits) :
    parse data limits = done ((Image.parse data limits).map of) := by
  have hdone : parse data limits =
      done (Image.parse data limits >>= fun image => .ok (of image)) := by
    unfold parse Image.parse
    simp only [bind_assoc]
    rw [dosHeader_eq]
    refine bind_eq fun dos _ => ?_
    have hstart := dos.headerOffset.toNat_lt
    rw [peHeaders_eq (by omega)]
    refine bind_eq fun headers _ => ?_
    have hsize := headers.coff.optionalSize.toNat_lt
    unfold PeHeaders.sectionsOffset PeHeaders.optionalOffset PeHeaders.coffOffset CoffHeader.size
    rw [add_eq (by omega), ok_bind, add_eq (by omega), ok_bind, sectionHeaders_eq (by omega),
      Nat.add_assoc]
    refine bind_eq fun declared _ => ?_
    rw [Sections.new_eq, ok_bind]
    rfl
  rw [hdone]
  cases Image.parse data limits <;> rfl

/-- An image that a machine can hold. -/
structure Fits (image : Image) : Prop where
  mapped : Mapped.Fits image.mapped
  imports_lt : image.limits.imports < 2 ^ 64

theorem Fits.data_lt (himage : Fits image) : image.data.size < 2 ^ 62 := himage.mapped.file_lt

theorem fits_of_parse (hdata : data.size < 2 ^ 62) (hlimits : limits.imports < 2 ^ 64)
    (h : Image.parse data limits = .ok image) : Fits image := by
  obtain ⟨dos, -, h⟩ := bind_eq_ok_iff.1 h
  obtain ⟨headers, -, h⟩ := bind_eq_ok_iff.1 h
  obtain ⟨declared, hdeclared, h⟩ := bind_eq_ok_iff.1 h
  cases h
  have hlength : declared.length < 2 ^ 64 := by
    have hcount := headers.coff.sectionCount.toNat_lt
    rw [length_of_mapM hdeclared, List.length_range]
    omega
  refine ⟨⟨hdata, ?_⟩, hlimits⟩
  rw [← Array.length_toList, (SectionTable.byAddress_perm _).length_eq]
  exact hlength

/-! ## Answers without a trap -/

section Stored

variable (image : Image)

@[simp] theorem of_data : (of image).data = image.data := rfl

@[simp] theorem of_dos : (of image).dos = image.dos := rfl

@[simp] theorem of_sections : (of image).sections = .of image.sections := rfl

@[simp] theorem of_mapped : (of image).mapped = .of image.mapped := rfl

end Stored

theorem overlay?_eq : (of image).overlay? = done (.ok image.overlay?) := by
  have hstops : (of image).sections.sections.toList.map StoredSection.stop =
      image.sections.headers.map SectionHeader.fileEnd := by
    simp [Sections.of, Function.comp_def]
  unfold overlay? Image.overlay? Image.sectionsEnd
  rw [hstops, of_data]
  by_cases hinside : 0 < (image.sections.headers.map SectionHeader.fileEnd).foldl max 0 ∧
      (image.sections.headers.map SectionHeader.fileEnd).foldl max 0 < image.data.size
  · rw [if_pos hinside, if_pos hinside, cut_eq (Nat.le_of_lt hinside.2) le_rfl]
    rfl
  · rw [if_neg hinside, if_neg hinside]
    rfl

section Fits

variable (himage : Fits image)
include himage

theorem resourceData_eq (r : Resource) :
    (of image).resourceData r = done (.ok (r.data? image.data)) := by
  unfold resourceData Resource.data?
  rw [of_data]
  cases r.offset? with
  | none => rfl
  | some i =>
    dsimp only
    rw [range?_eq himage.data_lt]
    rfl

theorem versionInfo_eq : (of image).versionInfo = done image.versionInfo := by
  unfold versionInfo Image.versionInfo resources Image.resources
  rw [of_mapped]
  rw [resources_eq himage.mapped]
  refine bind_eq fun found _ => ?_
  cases found.find? (·.kind == .number ResourceId.version) with
  | none => rfl
  | some r =>
    dsimp only
    rw [resourceData_eq himage, ok_bind]
    refine bind_eq fun data hdata => ?_
    have hsize := r.size.toNat_lt
    -- the blocks are offsets into the resource, which is far shorter than a file may be
    obtain ⟨i, -, hslice⟩ := Option.bind_eq_some_iff.1 (orFault_eq_ok_iff.1 hdata)
    rw [Checked.versionInfo_eq (by rw [Bytes.size_slice? hslice]; omega)]
    exact bind_done _ _

theorem computedChecksum_eq : (of image).computedChecksum = done (.ok image.computedChecksum) := by
  have hoffset := image.dos.headerOffset.toNat_lt
  unfold computedChecksum Image.computedChecksum Image.checksumOffset PeHeaders.optionalOffset
    PeHeaders.coffOffset CoffHeader.size OptionalHeader.checksumOffset
  rw [of_dos, of_data, add_eq (by omega), ok_bind, add_eq (by omega), ok_bind,
    checksum_eq himage.data_lt (by omega)]

end Fits

/-- An image whose stored form answers all questions without a trap, and as it does itself. -/
structure Answered (image : Image) : Prop where
  overlay : (of image).overlay? = done (.ok image.overlay?)
  offset : ∀ address, (of image).offset? address = done (.ok (image.sections.offset? address))
  address : ∀ offset, (of image).address? offset = done (.ok (image.sections.address? offset))
  imports : (of image).imports = done image.imports
  exports : (of image).exports = done image.exports
  resources : (of image).resources = done image.resources
  resourceData : ∀ r, (of image).resourceData r = done (.ok (r.data? image.data))
  versionInfo : (of image).versionInfo = done image.versionInfo
  debugEntries : (of image).debugEntries = done image.debugEntries
  tls : (of image).tls = done image.tls
  relocations : (of image).relocations = done image.relocations
  certificates : (of image).certificates = done image.certificates
  computedChecksum : (of image).computedChecksum = done (.ok image.computedChecksum)

theorem answered_of_fits (himage : Fits image) : Answered image where
  overlay := overlay?_eq
  offset _ := Sections.offset?_eq himage.mapped.sections_lt
  address _ := Sections.address?_eq _
  imports := imports_eq himage.mapped _ _ himage.imports_lt
  exports := exports_eq himage.mapped _ _
  resources := resources_eq himage.mapped _ _ _
  resourceData := resourceData_eq himage
  versionInfo := versionInfo_eq himage
  debugEntries := debugEntries_eq himage.mapped _
  tls := tls_eq himage.mapped _ _
  relocations := relocations_eq himage.mapped _ _
  certificates := certificates_eq himage.data_lt _
  computedChecksum := computedChecksum_eq himage

/-- No file makes a machine trap, neither in its headers nor in what is asked of it. -/
theorem read_without_trap (data : Bytes) (limits : Limits) (hdata : data.size < 2 ^ 62)
    (hlimits : limits.imports < 2 ^ 64) :
    parse data limits = done ((Image.parse data limits).map of) ∧
      ∀ image, Image.parse data limits = .ok image → Answered image := by
  refine ⟨parse_eq data limits, ?_⟩
  intro image himage
  exact answered_of_fits (fits_of_parse hdata hlimits himage)

/-! ## An image with every table -/

/-- The tables of `populated`, one behind the other from offset 392. One name, at offset 442, does
for every function and library. -/
def tables : List (List HeaderField) :=
  -- exports at 392: the directory, a function, its name and its ordinal
  [[.raw (List.replicate 12 0), .u32 442, .u32 1, .u32 1, .u32 1, .u32 432, .u32 436, .u32 440,
      .u32 0x1000, .u32 442, .u16 0, .raw [0x66, 0]],
    -- imports at 444: a library, and its function by ordinal at 484
    [.u32 484, .u32 0, .u32 0, .u32 442, .u32 484, .raw (List.replicate 20 0), .u32 0x80000007,
      .u32 0],
    -- delayed imports at 492: the same function
    [.u32 1, .u32 442, .u32 0, .u32 484, .u32 484, .raw (List.replicate 44 0)],
    -- resources at 556: three directories, a leaf, and the root of version information at 644
    [.raw (List.replicate 14 0), .u16 1, .u32 16, .u32 0x80000018,
      .raw (List.replicate 14 0), .u16 1, .u32 1, .u32 0x80000030,
      .raw (List.replicate 14 0), .u16 1, .u32 0x409, .u32 72,
      .u32 644, .u32 40, .u32 0, .u32 0,
      .u16 40, .u16 0, .u16 1,
      .raw ("VS_VERSION_INFO".toList.flatMap fun c => [c.val.toUInt8, 0]), .u32 0, .u32 0],
    -- certificates at 688
    [.u32 16, .u16 0x200, .u16 2, .u64 7],
    -- relocations at 704
    [.u32 0x1000, .u32 12, .u16 0x3005, .u16 0],
    -- debug information at 716, and the record that it leads to at 744
    [.raw (List.replicate 12 0), .u32 2, .u32 26, .u32 744, .u32 744,
      .u32 0x53445352, .u64 1, .u64 2, .u32 1, .raw [0x70, 0]],
    -- thread-local storage at 770, and its callbacks at 794
    [.raw (List.replicate 12 0), .u32 0x40031A, .u64 0, .u32 0x401000, .u32 0]]

/-- A library with all of its directories. Its first section shows the tables at addresses equal to
their offsets, and the second is not in the file. -/
def populated : StoredImage where
  dos := ⟨0x5A4D, 0, 0, 0, 0, 0, 0, 0, 0, 0, 0, 0, 0, 0, 0, 0, 64⟩
  dosReserved := Vector.replicate 8 0
  dosReservedMore := Vector.replicate 20 0
  stub := []
  machineCode := 0x14C
  coff := ⟨.x86, 2, 0, 0, 0, 224, 0x2102⟩
  subsystemCode := 77
  optional := ⟨.pe32 0, 0, 0, 0, 0, 0, 0x1000, 0, 0x400000, 0, 0, 0, 0, 0, 0, 0, 0, 0, 0, 0, 0,
    .other 77, 0, 0, 0, 0, 0, 0, 16⟩
  directories := [⟨392, 40⟩, ⟨444, 40⟩, ⟨556, 88⟩, ⟨392, 40⟩, ⟨688, 16⟩, ⟨704, 12⟩, ⟨716, 28⟩,
    ⟨392, 40⟩, ⟨392, 40⟩, ⟨770, 24⟩, ⟨392, 40⟩, ⟨392, 40⟩, ⟨484, 8⟩, ⟨492, 64⟩, ⟨392, 40⟩,
    ⟨392, 40⟩]
  sections := [⟨Vector.replicate 8 0x61, 0, 392, 410, 392, 0, 0, 0, 0, 0x40000040⟩,
    ⟨Vector.replicate 8 0x62, 16, 0x1000, 0, 0, 0, 0, 0, 0, 0xC0000080⟩]
  rest := tables.flatMap HeaderField.rowBytes
  dos_magic := rfl
  headerOffset_eq := rfl
  machine_eq := by decide
  sectionCount_eq := rfl
  optionalSize_eq := rfl
  subsystem_eq := by decide
  narrow _ v hv := by
    simp only [OptionalHeader.addresses, List.mem_cons, List.not_mem_nil, or_false] at hv
    rcases hv with rfl | rfl | rfl | rfl | rfl <;> decide
  directories_le := by decide
  directoryCount_eq := rfl

/-- An image with sections and all directories, and with something in each table that is read. -/
structure HasEverything (image : Image) : Prop where
  sections : image.sections.headers.length = 2
  directories : ∀ slot, (image.directories.present? slot).isSome
  imports : image.imports.toOption.map (·.descriptors.length) = some 2
  exports : image.exports.toOption.map (·.exports.length) = some 1
  resources : image.resources.toOption.map (·.length) = some 1
  versionInfo : image.versionInfo.toOption.map Option.isSome = some true
  debugEntries : image.debugEntries.toOption.map (·.length) = some 1
  tls : image.tls.toOption.map (·.map (·.callbacks)) = some (some [0x401000])
  relocations : image.relocations.toOption.map (·.length) = some 1
  certificates : image.certificates.toOption.map (·.length) = some 1

/-- The sections of `populated`, which are declared in the order of their addresses. -/
def ordered : SectionTable where
  headers := populated.sections
  byAddress := populated.sections.toArray
  byAddress_eq := by rw [List.mergeSort_of_pairwise (by decide)]

theorem ofHeaders_populated : SectionTable.ofHeaders populated.sections = ordered := by
  rw [SectionTable.ofHeaders, ordered, SectionTable.mk.injEq]
  exact ⟨rfl, congrArg List.toArray (List.mergeSort_of_pairwise (by decide))⟩

/-- What is read of `populated`, with its bytes as a list and its sections in order. -/
def found : Image :=
  { populated.image {} with data := ⟨populated.bytes.toArray⟩, sections := ordered }

theorem image_populated : populated.image {} = found :=
  StoredImage.image_eq_with (ByteArray.ext List.data_toByteArray) ofHeaders_populated

theorem hasEverything_found : HasEverything found := by
  constructor
  case directories => intro slot; cases slot <;> decide +kernel
  all_goals decide +kernel

theorem read_without_trap_populated :
    populated.file.size < 2 ^ 62 ∧ ∃ image, Image.parse populated.file {} = .ok image ∧
      HasEverything image ∧ parse populated.file {} = done (.ok (of image)) ∧ Answered image := by
  have hsize : populated.file.size < 2 ^ 62 := by
    rw [populated.size_file]
    decide +kernel
  have himage := populated.parse_file {}
  rw [image_populated] at himage
  obtain ⟨hparse, hanswered⟩ := read_without_trap populated.file {} hsize (by decide)
  rw [himage] at hparse
  exact ⟨hsize, _, himage, hasEverything_found, hparse, hanswered _ himage⟩

end Loaded

end Checked

end ImageTriage
