import ImageTriage.Entropy
import ImageTriage.Image
import ImageTriage.Report.Layout
import ImageTriage.Report.Timestamp
import ImageTriage.Text.Decimal

/-!
# Blocks for the headers

The blocks for the DOS header, the COFF header, the optional header and the sections. An image that
was read has these, so they never fail.
-/

namespace ImageTriage.Report

open Text

/-- The DOS header. -/
def dosHeader (image : Image) : Block :=
  let h := image.dos
  { title := "DOS Header"
    lines := [
      field "Magic" (hexMarked 4 h.magic.toNat),
      count "Bytes on last page" h.lastPageBytes.toNat,
      count "Pages in file" h.pages.toNat,
      count "Relocations" h.relocations.toNat,
      count "Header size (paragraphs)" h.headerParagraphs.toNat,
      count "Min extra paragraphs" h.minParagraphs.toNat,
      count "Max extra paragraphs" h.maxParagraphs.toNat,
      field "Initial SS:SP" (hex 4 h.stackSegment.toNat ++ ":" ++ hex 4 h.stackPointer.toNat),
      field "Checksum" (hexMarked 4 h.checksum.toNat),
      field "Initial CS:IP" (hex 4 h.codeSegment.toNat ++ ":" ++ hex 4 h.instructionPointer.toNat),
      field "Relocation table offset" (hexMarked 4 h.relocationTable.toNat),
      count "Overlay number" h.overlayNumber.toNat,
      field "OEM id/info" (toString h.oemId.toNat ++ "/" ++ toString h.oemInfo.toNat),
      field "PE header offset" (hexMarked 8 h.headerOffset.toNat)] }

/-- The COFF header. -/
def coffHeader (image : Image) : Block :=
  let h := image.coff
  { title := "PE Header"
    lines := [
      field "Signature" "PE",
      field "Machine" h.machine.name,
      count "Number of sections" h.sectionCount.toNat,
      field "Time date stamp"
        (timestamp h.timestamp ++ " (" ++ hexMarked 8 h.timestamp.toNat ++ ")"),
      field "Symbol table pointer" (hexMarked 8 h.symbolTable.toNat),
      count "Number of symbols" h.symbolCount.toNat,
      count "Optional header size" h.optionalSize.toNat,
      field "Characteristics" (flagWord 4 h.characteristics.toNat h.flagNames)] }

/-- The line of a directory slot that leads to a table. -/
def directoryLine? (image : Image) (slot : DirectorySlot) : Option String :=
  (image.directories.present? slot).map fun d =>
    subitem (padRight 16 slot.name ++ "RVA " ++ hexMarked 8 d.address.toNat ++ "  size "
      ++ hexMarked 8 d.size.toNat)

/-- The optional header, with the directory slots that lead to a table. -/
def optionalHeader (image : Image) : Block :=
  let h := image.optional
  { title := "Image Optional Header"
    lines := [
      field "Magic" (hexMarked 3 h.layout.magic.toNat ++ " (" ++ h.layout.name ++ ")"),
      field "Linker version" (dotted h.linkerMajor.toNat h.linkerMinor.toNat),
      count "Size of code" h.codeSize.toNat,
      count "Size of initialized data" h.initializedSize.toNat,
      count "Size of uninitialized data" h.uninitializedSize.toNat,
      field "Address of entry point" (hexMarked 8 h.entryPoint.toNat),
      field "Base of code" (hexMarked 8 h.codeBase.toNat)]
      ++ (h.baseOfData?.map fun base => field "Base of data" (hexMarked 8 base.toNat)).toList
      ++ [
      field "Image base" (hexMarked 0 h.imageBase.toNat),
      field "Section alignment" (hexMarked 0 h.sectionAlignment.toNat),
      field "File alignment" (hexMarked 0 h.fileAlignment.toNat),
      field "Operating system version" (dotted h.systemMajor.toNat h.systemMinor.toNat),
      field "Image version" (dotted h.imageMajor.toNat h.imageMinor.toNat),
      field "Subsystem version" (dotted h.subsystemMajor.toNat h.subsystemMinor.toNat),
      count "Win32 version value" h.win32Version.toNat,
      count "Size of image" h.imageSize.toNat,
      count "Size of headers" h.headersSize.toNat,
      field "Checksum"
        (hexMarked 8 h.checksum.toNat ++ " (computed " ++ hexMarked 8 image.computedChecksum.toNat
          ++ ", " ++ (if image.isChecksumValid then "valid" else "mismatch") ++ ")"),
      field "Subsystem" h.subsystem.name,
      field "DLL characteristics" (flagWord 4 h.characteristics.toNat h.flagNames),
      field "Size of stack reserve" (hexMarked 0 h.stackReserve.toNat),
      field "Size of stack commit" (hexMarked 0 h.stackCommit.toNat),
      field "Size of heap reserve" (hexMarked 0 h.heapReserve.toNat),
      field "Size of heap commit" (hexMarked 0 h.heapCommit.toNat),
      field "Loader flags" (hexMarked 8 h.loaderFlags.toNat),
      count "Number of RVA and sizes" h.directoryCount.toNat,
      item "Data directories:"]
      ++ DirectorySlot.all.filterMap (directoryLine? image) }

/-- The lines of a section. -/
def sectionLines (file : Bytes) (h : SectionHeader) : List String :=
  [item h.name,
    subfield "VirtualSize" (hexMarked 0 h.virtualSize.toNat),
    subfield "VirtualAddress" (hexMarked 8 h.virtualAddress.toNat),
    subfield "RawSize" (hexMarked 0 h.rawSize.toNat),
    subfield "RawPointer" (hexMarked 8 h.rawOffset.toNat),
    subfield "Flags" (flags h.flagNames),
    subfield "Entropy"
      (match h.data? file with
        | some data => fixed 2 (entropy data)
        | none => "raw data outside file")]

/-- The sections. -/
def sections (image : Image) : Block where
  title := "Sections"
  lines := image.sections.headers.flatMap (sectionLines image.data)

end ImageTriage.Report
