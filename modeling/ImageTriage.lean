import ImageTriage.Bytes.Basic
import ImageTriage.Bytes.Align
import ImageTriage.Fault
import ImageTriage.Bytes.Bounds
import ImageTriage.Text.Numeral
import ImageTriage.Text.Utf8
import ImageTriage.Text.Utf16
import ImageTriage.Header.Flag
import ImageTriage.Header.Machine
import ImageTriage.Header.Field
import ImageTriage.Header.Dos
import ImageTriage.Header.Coff
import ImageTriage.Header.Optional
import ImageTriage.Header.Directory
import ImageTriage.Header.Pe
import ImageTriage.Header.Section
import ImageTriage.Section.Table
import ImageTriage.Limits
import ImageTriage.Text.Decimal
import ImageTriage.Entropy
import ImageTriage.Checksum
import ImageTriage.Section.Mapping
import ImageTriage.Import.Table
import ImageTriage.Export.Table
import ImageTriage.Resource.Kind
import ImageTriage.Resource.Language
import ImageTriage.Resource.Tree
import ImageTriage.Version.Block
import ImageTriage.Version.Info
import ImageTriage.Debug.CodeView
import ImageTriage.Debug.Directory
import ImageTriage.Relocation
import ImageTriage.Certificate
import ImageTriage.Tls
import ImageTriage.Digest.File
import ImageTriage.Import.Hash
import ImageTriage.Image
import ImageTriage.Text.Blank
import ImageTriage.Text.Pieces
import ImageTriage.Text.Case
import ImageTriage.Content
import ImageTriage.Report.Layout
import ImageTriage.Report.Timestamp
import ImageTriage.Report.Category
import ImageTriage.Report.Headers
import ImageTriage.Report.Tables
import ImageTriage.Report.Summary
import ImageTriage.Report.Rendering
import ImageTriage.Files.Path
import ImageTriage.Files.Tree
import ImageTriage.Files.Reader
import ImageTriage.Failure
import ImageTriage.Resource.FileName
import ImageTriage.Batch.Signature
import ImageTriage.Batch.Host
import ImageTriage.Batch.Target
import ImageTriage.Batch.Run
import ImageTriage.Settings.Basic
import ImageTriage.Batch.RuleFile
import ImageTriage.Files.Discovery
import ImageTriage.CommandLine.Arguments
import ImageTriage.CommandLine.Execution
import ImageTriage.Proofs.Bytes.Reading
import ImageTriage.Proofs.Section.Lookup
import ImageTriage.Proofs.Section.Translation
import ImageTriage.Proofs.Header.Chain
import ImageTriage.Proofs.Checked.Basic
import ImageTriage.Proofs.Checked.Header
import ImageTriage.Proofs.Checked.Sections
import ImageTriage.Proofs.Checked.Mapping
import ImageTriage.Proofs.Checked.Imports
import ImageTriage.Proofs.Checked.Exports
import ImageTriage.Proofs.Checked.Resources
import ImageTriage.Proofs.Checked.Version
import ImageTriage.Proofs.Checked.Debug
import ImageTriage.Proofs.Checked.Tables
import ImageTriage.Proofs.Checked.Checksum
import ImageTriage.Proofs.Checked.Image
import ImageTriage.Proofs.Batch.Streams
import ImageTriage.Proofs.Batch.Parts
import ImageTriage.Proofs.Batch.Observed
import ImageTriage.Proofs.Batch.Composition
import ImageTriage.Proofs.Text.Lines
import ImageTriage.Proofs.Content
import ImageTriage.Proofs.Report.Views
import ImageTriage.Proofs.Report.Blocks
import ImageTriage.Proofs.Bytes.Layout
import ImageTriage.Proofs.Bytes.Overwrite
import ImageTriage.Proofs.Checksum.Sum
import ImageTriage.Proofs.Checksum.Sealing
import ImageTriage.Proofs.Text.Utf16
import ImageTriage.Proofs.Version.Blocks
import ImageTriage.Proofs.Version.Encoding
import ImageTriage.Proofs.Bytes.Fields
import ImageTriage.Proofs.Text.Utf8
import ImageTriage.Proofs.Resource.Layout
import ImageTriage.Proofs.Import.Layout
import ImageTriage.Proofs.Header.Layout
import ImageTriage.Proofs.Text.Words
import ImageTriage.Proofs.Files.Writing
import ImageTriage.Proofs.Resource.Extraction
import ImageTriage.Proofs.Relocation.Tiling
import ImageTriage.Proofs.Certificate.Layout
import ImageTriage.Proofs.Batch.FullReport
import ImageTriage.Proofs.Report.Selection
import ImageTriage.Proofs.Report.Accounting
import ImageTriage.Proofs.Export.Naming
import ImageTriage.Proofs.Report.Titles
import ImageTriage.Proofs.Report.Shown
import ImageTriage.Proofs.Report.Forgery
import ImageTriage.Proofs.CommandLine.Calls
import ImageTriage.Proofs.CommandLine.Attempts
import ImageTriage.Proofs.CommandLine.Setup
import ImageTriage.Proofs.Export.Slots
import ImageTriage.Proofs.Tls.Callbacks
import ImageTriage.Proofs.Relocation.Limit
import ImageTriage.Proofs.Import.Truncation
import ImageTriage.Proofs.Resource.Truncation
import ImageTriage.Proofs.Resource.Traversal
import ImageTriage.Proofs.Resource.Walker
import ImageTriage.Proofs.Version.Confinement
import ImageTriage.Proofs.Checksum.ClosedForm
import ImageTriage.Proofs.Files.Reading
import ImageTriage.Proofs.Import.Hashing
import ImageTriage.Proofs.Import.OlderForm
import ImageTriage.Proofs.Export.Truncation
import ImageTriage.Proofs.Section.Overlay
import ImageTriage.Proofs.Debug.CodeView
import ImageTriage.Proofs.Text.Agreement
import ImageTriage.Content.Kinds
import ImageTriage.Settings.Json
import ImageTriage.Settings.Fields
import ImageTriage.CommandLine.Reader
import ImageTriage.CommandLine.Program
import ImageTriage.Main
