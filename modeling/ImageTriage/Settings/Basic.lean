import ImageTriage.Batch.Host
import ImageTriage.Limits

/-!
# Settings

The settings of a run: where the rules are, how large files may be, and how much of each table is
read. What the text of a settings file means is a parameter, a `SettingsDecoder`. A directory of
rules that is given elsewhere replaces the rule files of the settings, all three.
-/

namespace ImageTriage

/-- The settings of a run. -/
structure Settings where
  rules : RulePaths := default
  reading : ReadLimits := {}
  limits : Limits := {}
  deriving DecidableEq, Repr, Inhabited

/-- A reading of the texts of settings files, inferred wherever one is loaded. -/
class SettingsDecoder where
  /-- The settings of a text, or the reason why it gives none. -/
  decode : String → Except String Settings

namespace Settings

/-- Reads the content of the settings file at a path. -/
def ofContent [SettingsDecoder] (path : Path) (content : Bytes) : Except Failure Settings :=
  match String.fromUTF8? content with
  | none => .error (.configuration (path ++ ": stream did not contain valid UTF-8"))
  | some text =>
    match SettingsDecoder.decode text with
    | .error reason => .error (.configuration (path ++ ": " ++ reason))
    | .ok settings => .ok settings

/-- Reads the settings file at a path. -/
def load {m : Type → Type} [Monad m] [SettingsDecoder] (host : Host m) (path : Path) :
    ExceptT Failure m Settings := do
  match ← host.content path with
  | .error reason => throw (.configuration (path ++ ": " ++ reason))
  | .ok content => ExceptT.mk (pure (ofContent path content))

/-- The settings with the usual rule files of a directory. -/
def withRules (s : Settings) (directory : Path) : Settings :=
  { s with rules := .inDirectory directory }

end Settings

end ImageTriage
