import ImageTriage.Certificate
import ImageTriage.Checksum
import ImageTriage.Debug.Directory
import ImageTriage.Export.Table
import ImageTriage.Header.Dos
import ImageTriage.Header.Pe
import ImageTriage.Import.Table
import ImageTriage.Limits
import ImageTriage.Relocation
import ImageTriage.Resource.Tree
import ImageTriage.Tls
import ImageTriage.Version.Info

/-!
# Images

An `Image` is a file whose chain of headers is whole: the DOS header leads to the signature
`PE\0\0`, after it stand the COFF header, the optional header and the section headers.
`Image.parse` reads the chain and answers the first fault in it. The tables behind the data
directories are read when they are asked for; a fault in one does not touch the others.
-/

namespace ImageTriage

/-- An image with its headers read. -/
structure Image extends PeHeaders where
  data : Bytes
  dos : DosHeader
  sections : SectionTable
  limits : Limits

namespace Image

/-- Reads the headers of an image; its tables will be read up to `limits`. -/
def parse (data : Bytes) (limits : Limits) : Except Fault Image := do
  let dos ← DosHeader.parse data
  let start := dos.headerOffset.toNat
  let headers ← PeHeaders.parse data start
  let declared ← SectionHeader.parseAll data (start + headers.sectionsOffset)
    headers.coff.sectionCount
  return { headers with data, dos, sections := .ofHeaders declared, limits }

/-! ## Placement -/

/-- The file with its addresses. -/
def mapped (image : Image) : MappedFile where
  file := image.data
  sections := image.sections
  imageBase := image.optional.imageBase
  wide := image.optional.is64Bit

/-- The name of the section that holds the entry point. -/
def entrySection? (image : Image) : Option String :=
  (image.sections.containing? image.optional.entryPoint).map SectionHeader.name

/-- The end of the last section in the file. -/
def sectionsEnd (image : Image) : Nat :=
  (image.sections.headers.map SectionHeader.fileEnd).foldl max 0

/-- The bytes after the last section, when there are any. -/
def overlay? (image : Image) : Option Bytes :=
  if 0 < image.sectionsEnd ∧ image.sectionsEnd < image.data.size then
    some (image.data.extract image.sectionsEnd image.data.size)
  else
    none

/-! ## Tables -/

/-- The directory of a slot number. -/
def directory (image : Image) (index : Nat) : Except Fault DataDirectory :=
  orFault (.absentDirectory index) image.directories[index]?

/-- Whether the slot of that number leads to a table. -/
def hasDirectory (image : Image) (index : Nat) : Bool :=
  (image.directories[index]?).any DataDirectory.isPresent

/-- The imported functions. -/
def imports (image : Image) : Except Fault ImportTable :=
  ImportTable.parse image.mapped (image.directories.get .imports)
    (image.directories.get .delayImports) image.limits.imports

/-- The exported functions. -/
def exports (image : Image) : Except Fault ExportTable :=
  ExportTable.parse image.mapped (image.directories.get .exports) image.limits.exports

/-- The resources. -/
def resources (image : Image) : Except Fault (List Resource) :=
  Resource.parseAll image.mapped (image.directories.get .resources) image.limits.resourceDepth
    image.limits.resources

/-- The version information: the first resource of that kind. -/
def versionInfo (image : Image) : Except Fault (Option VersionInfo) := do
  let found ← image.resources
  match found.find? (·.kind == .number ResourceId.version) with
  | none => return none
  | some r =>
    let data ← orFault (.unmappedAddress r.address) (r.data? image.data)
    return some (← VersionInfo.parse data)

/-- The records of the debug directory. -/
def debugEntries (image : Image) : Except Fault (List DebugEntry) :=
  DebugEntry.parseAll image.mapped (image.directories.get .debug)

/-- The TLS directory. -/
def tls (image : Image) : Except Fault (Option TlsDirectory) :=
  TlsDirectory.parse image.mapped (image.directories.get .tls) image.limits.tlsCallbacks

/-- The base relocations. -/
def relocations (image : Image) : Except Fault (List RelocationBlock) :=
  RelocationBlock.parseAll image.mapped (image.directories.get .relocations)
    image.limits.relocationBlocks

/-- The certificates. -/
def certificates (image : Image) : Except Fault (List Certificate) :=
  Certificate.parseAll image.data (image.directories.get .certificates)

/-! ## Properties -/

/-- Whether there is a certificate table. -/
def isSigned (image : Image) : Bool := (image.directories.get .certificates).isPresent

/-- Whether the image runs on a managed runtime. -/
def isManaged (image : Image) : Bool := (image.directories.get .runtime).isPresent

/-- The file offset of the checksum. -/
def checksumOffset (image : Image) : Nat :=
  image.dos.headerOffset.toNat + PeHeaders.optionalOffset + OptionalHeader.checksumOffset

/-- The checksum that the file should state. -/
def computedChecksum (image : Image) : UInt32 :=
  Checksum.compute image.data image.checksumOffset

/-- Whether the stated checksum holds. A loader never checks a checksum of zero. -/
def isChecksumValid (image : Image) : Bool :=
  image.optional.checksum == 0 || image.optional.checksum == image.computedChecksum

end Image

end ImageTriage
