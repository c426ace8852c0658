import ImageTriage.Failure
import ImageTriage.Report.Category
import ImageTriage.Report.Headers
import ImageTriage.Report.Summary
import ImageTriage.Report.Tables

/-!
# Rendering views

A view is one thing to be shown of a target. Rendering it gives text, and perhaps a failure after
it. Of an image only its tables fail. Where a table must be read before its block can begin, a fault
leaves no text. The blocks of the version information and of thread-local storage begin before their
table is read, so a fault there leaves the heading.
-/

namespace ImageTriage

/-- What can be shown of a target. -/
inductive View where
  | summary
  /-- A block of a category; for resources, with their digests or without. -/
  | category (c : Category) (withHashes : Bool)
  | hashes
  deriving DecidableEq, Repr

/-- The text of a view, and the failure that cut it short. -/
structure Rendering where
  text : String
  failure? : Option Failure := none
  deriving DecidableEq, Repr

namespace Rendering

/-- A whole block. -/
def ofBlock (b : Report.Block) : Rendering := ⟨b.text, none⟩

/-- The block of a table that is read before the heading is written. -/
def ofTable {α : Type} (title : String) (table : Except Fault α) (lines : α → List String) :
    Rendering :=
  match table with
  | .ok a => ofBlock ⟨title, lines a⟩
  | .error fault => ⟨"", some (.malformed fault)⟩

/-- The block of a table that is read after the heading is written. -/
def underHeading {α : Type} (title : String) (table : Except Fault α) (lines : α → List String) :
    Rendering :=
  match table with
  | .ok a => ofBlock ⟨title, lines a⟩
  | .error fault => ⟨Report.heading title, some (.malformed fault)⟩

end Rendering

namespace Image

open Report Rendering

/-- The block of a category. -/
def renderCategory [Sniffer] (image : Image) (withHashes : Bool) : Category → Rendering
  | .dos => ofBlock (dosHeader image)
  | .pe => ofBlock (coffHeader image)
  | .opt => ofBlock (optionalHeader image)
  | .sections => ofBlock (Report.sections image)
  | .imports => ofTable "Imports" image.imports importLines
  | .exports => ofTable "Exports" image.exports exportLines
  | .resources => ofTable "Resources" image.resources (resourceLines image withHashes)
  | .version => underHeading "Version Info" image.versionInfo versionLines
  | .debug => ofTable "Debug Info" image.debugEntries debugLines
  | .relocations => ofTable "Relocations" image.relocations relocationLines
  | .tls => underHeading "TLS Callbacks" image.tls tlsLines
  | .certificates => ofTable "Certificates" image.certificates certificateLines

/-- Renders a view of an image. -/
def render [Sniffer] (image : Image) : View → Rendering
  | .summary => ofBlock (summary image)
  | .category c withHashes => image.renderCategory withHashes c
  | .hashes => ofBlock (hashes image)

end Image

end ImageTriage
