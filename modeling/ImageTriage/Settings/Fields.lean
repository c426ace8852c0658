import ImageTriage.Settings.Basic
import ImageTriage.Settings.Json

/-!
# Settings in JSON

The fields of a settings file that is written in JSON. A settings file names only what it changes.
-/

namespace ImageTriage.Settings

open Json

/-- The fields of the rule files. -/
def ruleFields : List (FieldReader RulePaths) :=
  [.of "packer" string fun path r => { r with packer := path },
    .of "malware" string fun path r => { r with malware := path },
    .of "file_type" string fun path r => { r with fileType := path }]

/-- The fields of the limits on files. -/
def readingFields : List (FieldReader ReadLimits) :=
  [.of "max_read_bytes" word fun n r => { r with readBytes := n },
    .of "max_file_size" word fun n r => { r with fileSize := n }]

/-- The fields of the limits on tables. -/
def limitFields : List (FieldReader Limits) :=
  [.of "max_resource_depth" word fun n l => { l with resourceDepth := n },
    .of "max_resources" word fun n l => { l with resources := n },
    .of "max_imports" word fun n l => { l with imports := n },
    .of "max_exports" word fun n l => { l with exports := n },
    .of "max_relocation_blocks" word fun n l => { l with relocationBlocks := n },
    .of "max_tls_callbacks" word fun n l => { l with tlsCallbacks := n }]

/-- The fields of the settings. Each part that is named starts from its defaults. -/
def fields : List (FieldReader Settings) :=
  [.of "rules" (record ruleFields default) fun rules s => { s with rules },
    .of "io" (record readingFields {}) fun reading s => { s with reading },
    .of "parser" (record limitFields {}) fun limits s => { s with limits }]

/-- Reads the text of a settings file. -/
def ofText? (text : String) : Option Settings := whole (record fields {}) text.toList

/-- The reading of settings files that are written in JSON. -/
abbrev decoder : SettingsDecoder where
  decode text :=
    match ofText? text with
    | some settings => .ok settings
    | none => .error "not a settings file"

end ImageTriage.Settings
