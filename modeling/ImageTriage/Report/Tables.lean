import ImageTriage.Content
import ImageTriage.Digest.Sha256
import ImageTriage.Image
import ImageTriage.Report.Layout
import ImageTriage.Report.Timestamp
import ImageTriage.Resource.Language

/-!
# Blocks for the tables

The lines for the tables behind the data directories. Each function here takes a table that could be
read; what happens when it could not is decided where blocks are put together.
-/

namespace ImageTriage.Report

open Text

/-- The line of an imported function. -/
def importLine (e : ImportEntry) : String :=
  subitem (match e.target with
    | .named (some name) _ => name
    | .named none _ => "<unresolved>"
    | .ordinal number => "#" ++ toString number.toNat)

/-- The imported functions, by library. -/
def importLines (t : ImportTable) : List String :=
  t.descriptors.flatMap fun d =>
    item (d.dllName ++ match d.kind with
      | .regular => ""
      | .delayLoaded => " (delay-loaded)") :: d.entries.map importLine

/-- The line of an exported function. -/
def exportLine (e : ExportEntry) : String :=
  item (padLeft ' ' 5 (toString e.ordinal.toNat) ++ "  " ++ hexMarked 8 e.address.toNat ++ "  "
    ++ e.name.getD "<unnamed>" ++ match e.forwarder with
      | some target => " -> " ++ target
      | none => "")

/-- The exported functions, after the properties of the table. -/
def exportLines (t : ExportTable) : List String :=
  (t.dllName.map (field "Module name")).toList
    ++ (if t.exports = [] then [] else [
      field "Time date stamp" (timestamp t.timestamp),
      field "Version" (dotted t.majorVersion.toNat t.minorVersion.toNat),
      count "Ordinal base" t.ordinalBase.toNat])
    ++ t.exports.map exportLine

/-- The lines about the data of a resource. -/
def resourceDataLines [Sniffer] (withHashes : Bool) : Option Bytes → List String
  | none => [subfield "Data" "not backed by the file"]
  | some data =>
    ((Content.detect? data).map fun content => subfield "Detected" content.mediaType).toList
      ++ (if withHashes then [subfield "SHA-256" (Digest.Sha256.hex data)] else [])

/-- The resources of an image, with a digest of each when that is asked for. -/
def resourceLines [Sniffer] (image : Image) (withHashes : Bool) (rs : List Resource) :
    List String :=
  rs.flatMap fun r =>
    [item (r.kind.kindName ++ "/" ++ r.name.text ++ "/" ++ Language.label r.language),
      subfield "Size" (toString r.size.toNat ++ " bytes"),
      subfield "RVA" (hexMarked 8 r.address.toNat),
      subcount "Code page" r.codePage.toNat]
      ++ resourceDataLines withHashes (r.data? image.data)

/-- The lines of the fixed part of version information. -/
def fixedVersionLines (v : FixedVersion) : List String :=
  [field "File version" v.file.text,
    field "Product version" v.product.text,
    field "File flags" (hexMarked 0 (v.flags &&& v.flagsMask).toNat),
    field "File OS" (hexMarked 0 v.system.toNat),
    field "File type" (hexMarked 0 v.fileKind.toNat ++ "/" ++ hexMarked 0 v.fileSubkind.toNat)]

/-- The version information, when there is any. -/
def versionLines : Option VersionInfo → List String
  | none => []
  | some info =>
    (info.fixed.map fixedVersionLines).getD []
      ++ info.tables.flatMap (fun t =>
        item ("[" ++ t.key ++ "]") :: t.strings.map fun s => subfield s.1 s.2)
      ++ info.languages.map fun (language, codePage) =>
        field "Translation"
          (Language.label language.toUInt32 ++ " / code page " ++ toString codePage.toNat)

/-- The lines of a record of the debug directory. -/
def debugLines (es : List DebugEntry) : List String :=
  es.flatMap fun e =>
    [item (DebugEntry.kindName e.kind),
      subfield "Timestamp" (timestamp e.timestamp),
      subfield "Version" (dotted e.majorVersion.toNat e.minorVersion.toNat),
      subcount "Size" e.dataSize.toNat,
      subfield "File offset" (hexMarked 8 e.dataOffset.toNat)]
      ++ match e.codeView with
        | none => []
        | some cv =>
          [subfield "Format" cv.signature, subfield "GUID" cv.guid, subcount "Age" cv.age.toNat,
            subfield "PDB" cv.path]

/-- The line of a patch in the given page. -/
def relocationLine (page : UInt32) (r : Relocation) : String :=
  let target := match r.target? page with
    | some address => hexMarked 8 address.toNat
    | none => "<overflow>"
  subitem (padRight 10 target ++ "  " ++ Relocation.kindName r.kind)

/-- The base relocations, by page. Patches of kind zero only fill a block up and are not shown. -/
def relocationLines (bs : List RelocationBlock) : List String :=
  bs.flatMap fun b =>
    item ("Page " ++ hexMarked 8 b.page.toNat ++ " (" ++ toString b.entries.length ++ " entries)")
      :: (b.entries.filter (·.kind != 0)).map (relocationLine b.page)

/-- The TLS directory, when there is one. -/
def tlsLines : Option TlsDirectory → List String
  | none => []
  | some t =>
    [field "Raw data" (hexMarked 0 t.dataStart.toNat ++ " - " ++ hexMarked 0 t.dataEnd.toNat),
      field "Address of index" (hexMarked 0 t.indexAddress.toNat),
      field "Address of callbacks" (hexMarked 0 t.callbacksAddress.toNat),
      count "Size of zero fill" t.zeroFill.toNat,
      field "Characteristics" (hexMarked 8 t.characteristics.toNat)]
      ++ t.callbacks.map fun address => subitem (hexMarked 0 address.toNat)

/-- The certificates. -/
def certificateLines (cs : List Certificate) : List String :=
  cs.flatMap fun c =>
    [item (Certificate.kindName c.kind ++ " at " ++ hexMarked 8 c.offset.toNat),
      subcount "Length" c.length.toNat,
      subfield "Revision" (hexMarked 4 c.revision.toNat),
      subfield "SHA-256" (Digest.Sha256.hex c.payload)]

end ImageTriage.Report
