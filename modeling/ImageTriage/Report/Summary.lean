import ImageTriage.Digest.File
import ImageTriage.Image
import ImageTriage.Import.Hash
import ImageTriage.Report.Layout
import ImageTriage.Report.Timestamp
import ImageTriage.Resource.Language

/-!
# Summary and digests

The blocks that are shown when no category is asked for, and when digests are. A table that cannot
be read costs a line here, never the block.
-/

namespace ImageTriage.Report

open Text

/-- The names of the defences that an image asks for. -/
def mitigationNames (m : Mitigations) : List String :=
  [(m.dynamicBase, "ASLR"), (m.highEntropy, "High-entropy VA"), (m.nxCompatible, "DEP"),
    (m.guardedCalls, "CFG"), (!m.handlers, "No SEH"), (m.forceIntegrity, "Force integrity"),
    (m.container, "AppContainer")].filterMap fun (isSet, name) => if isSet then some name else none

/-- The lines about the imports. -/
def importSummary : Except Fault ImportTable → List String
  | .ok t =>
    [field "Imports" (toString t.count ++ " functions from " ++ toString t.descriptors.length
        ++ " DLLs"),
      field "Imphash" (ImportHash.hex t)]
  | .error fault => [field "Imports" ("malformed (" ++ fault.message ++ ")")]

/-- The line about the exports, when there are any. -/
def exportSummary : Except Fault ExportTable → List String
  | .ok t =>
    if t.exports = [] then []
    else [field "Exports" (toString t.count ++ " (" ++ toString t.namedCount ++ " by name)")]
  | .error _ => []

/-- The language codes of resources, in order and each once. -/
def languages (rs : List Resource) : List UInt32 :=
  ((rs.map Resource.language).mergeSort (· ≤ ·)).eraseReps

/-- The line about the languages of the resources, when there are any. -/
def languageSummary : Except Fault (List Resource) → List String
  | .ok rs =>
    if rs = [] then []
    else
      [field "Detected languages"
        (String.intercalate ", " ((languages rs).map Language.label))]
  | .error _ => []

/-- The version strings that the summary shows. -/
def summaryKeys : List String := ["CompanyName", "ProductName", "FileVersion", "OriginalFilename"]

/-- The lines about the version information, when there is any. -/
def versionSummary : Except Fault (Option VersionInfo) → List String
  | .ok (some info) => summaryKeys.filterMap fun key => (info.value? key).map (field key)
  | _ => []

/-- A yes or no. -/
def yesNo (b : Bool) : String := if b then "yes" else "no"

/-- The summary of an image. -/
def summary (image : Image) : Block :=
  let h := image.optional
  { title := "Summary"
    lines := [
      field "File size" (toString image.data.size ++ " bytes"),
      field "Architecture" (image.coff.machine.name ++ " (" ++ h.layout.name ++ ")"),
      field "Type" (if image.coff.isLibrary then "DLL" else "Executable"),
      field "Compilation date" (timestamp image.coff.timestamp),
      field "Subsystem" h.subsystem.name,
      field "Entry point"
        (hexMarked 8 h.entryPoint.toNat ++ " (" ++ image.entrySection?.getD "no section" ++ ")"),
      field "Image base" (hexMarked 0 h.imageBase.toNat),
      count "Sections" image.sections.size]
      ++ importSummary image.imports
      ++ exportSummary image.exports
      ++ [
      field "Mitigations" (flags (mitigationNames h.mitigations)),
      field "Signed" (yesNo image.isSigned),
      field ".NET" (yesNo image.isManaged)]
      ++ (image.overlay?.map fun data =>
        field "Overlay" (toString data.size ++ " bytes")).toList
      ++ languageSummary image.resources
      ++ versionSummary image.versionInfo }

/-- The digests of the file, and of its imports. -/
def hashes (image : Image) : Block where
  title := "Hashes"
  lines := (Digest.ofFile image.data).map (fun (label, digest) => field label digest)
    ++ [field "IMPHASH" (match image.imports with
      | .ok t => ImportHash.hex t
      | .error fault => "unavailable (" ++ fault.message ++ ")")]

end ImageTriage.Report
