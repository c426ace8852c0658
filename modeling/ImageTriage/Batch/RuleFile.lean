import ImageTriage.Batch.Run

/-!
# Engines from rule files

An engine is made from the text of a rule file. How rules are compiled is a parameter: a compiler
turns the text into a function that finds the matches in a run of bytes, or says why it cannot.
-/

namespace ImageTriage

/-- Turns the text of a rule file into a search for matches. -/
abbrev RuleCompiler := String → Except String (Bytes → List SignatureMatch)

namespace RuleCompiler

variable {m : Type → Type} [Monad m]

/-- The text of a rule file. -/
def sourceText (host : Host m) (path : Path) : ExceptT String m String := do
  let content ← ExceptT.mk (host.content path)
  match String.fromUTF8? content with
  | some text => return text
  | none => throw "stream did not contain valid UTF-8"

/-- The engine of a search. A file that cannot be read has no matches. -/
def engine (host : Host m) (limits : ReadLimits) (search : Bytes → List SignatureMatch) :
    Engine m := fun path => do
  match ← (host.readBounded limits path).run with
  | .ok data => return search data
  | .error _ => return []

/-- Loads the engine of a rule file. -/
def load (host : Host m) (compile : RuleCompiler) (limits : ReadLimits) (kind : EngineKind)
    (path : Path) : m (Except Failure (Engine m)) := do
  match ← (sourceText host path).run with
  | .error reason => return .error (.engineLoad kind.name path reason)
  | .ok text =>
    match compile text with
    | .error reason => return .error (.engineLoad kind.name path reason)
    | .ok search => return .ok (engine host limits search)

end RuleCompiler

end ImageTriage
