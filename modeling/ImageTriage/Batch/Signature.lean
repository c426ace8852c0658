import ImageTriage.Files.Path

/-!
# Signatures

An engine holds rules, and a rule that fires on a file is a match: the name of the rule and fields
that tell about it. There are three engines, each with a rule file of its own. A report shows one
field of each match, or the name of the rule when it has no such field.
-/

namespace ImageTriage

/-- A rule that fired on a file. -/
structure SignatureMatch where
  rule : String
  /-- Names and values. -/
  fields : List (String × String) := []
  deriving DecidableEq, Repr

namespace SignatureMatch

/-- The field of the given name. -/
def field? (s : SignatureMatch) (key : String) : Option String := s.fields.lookup key

/-- The field of the given name, or the name of the rule. -/
def fieldOrRule (s : SignatureMatch) (key : String) : String := (s.field? key).getD s.rule

end SignatureMatch

/-- The files with the rules of the engines. -/
structure RulePaths where
  packer : Path
  malware : Path
  fileType : Path
  deriving DecidableEq, Repr

namespace RulePaths

/-- The usual rule files in a directory. -/
def inDirectory (directory : Path) : RulePaths where
  packer := Path.join directory "peid.yara"
  malware := Path.join directory "clamav.yara"
  fileType := Path.join directory "magic.yara"

/-- The directory of the rule files when no other is given. -/
def usualDirectory : Path := "resources"

instance : Inhabited RulePaths := ⟨inDirectory usualDirectory⟩

end RulePaths

/-- What an engine looks for. -/
inductive EngineKind where
  | packer
  | malware
  | fileType
  deriving DecidableEq, Repr

namespace EngineKind

/-- The name of an engine. -/
def name : EngineKind → String
  | packer => "packer"
  | malware => "malware"
  | fileType => "file type"

/-- The field that a report shows. -/
def field : EngineKind → String
  | packer => "packer_name"
  | malware => "signature"
  | fileType => "description"

/-- The line above the matches. -/
def heading : EngineKind → String
  | packer => "Packer/compiler signature(s):"
  | malware => "Malware signature(s):"
  | fileType => "Detected file type(s):"

/-- The rule file of an engine. -/
def rulePath (rules : RulePaths) : EngineKind → Path
  | packer => rules.packer
  | malware => rules.malware
  | fileType => rules.fileType

end EngineKind

end ImageTriage
