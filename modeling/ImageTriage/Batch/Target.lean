import ImageTriage.Batch.Host
import ImageTriage.Report.Rendering
import ImageTriage.Resource.FileName

/-!
# Targets

A target is a path of which a run makes a report. Once it is parsed it can be rendered, and its
resources can be saved. How a path becomes a target is a parameter of a run; `Target.ofImageFile`
is the way for images.
-/

namespace ImageTriage

/-- A target that was parsed. -/
structure Target (m : Type → Type) where
  path : Path
  render : View → Rendering
  /-- Saves the resources in a directory, and answers how many were saved. -/
  extract : Path → ExceptT Failure m Nat

namespace Image

variable {m : Type → Type} [Monad m]

/-- Saves those resources in a directory whose data the file holds, and answers how many there are
when `saved` of them are saved already. The first that cannot be saved ends it; those before it
stay. -/
def saveAll [Sniffer] (host : Host m) (file : Bytes) (directory : Path) (saved : Nat) :
    List Resource → ExceptT Failure m Nat
  | [] => return saved
  | r :: rest =>
    match r.data? file with
    | none => saveAll host file directory saved rest
    | some data => do
      match ← host.writeFile (Path.join directory (r.fileName data)) data with
      | .error reason => throw (.extraction directory reason)
      | .ok () => saveAll host file directory (saved + 1) rest

/-- Saves the resources of an image in a directory, which is made when it is not there. -/
def extractResources [Sniffer] (host : Host m) (image : Image) (directory : Path) :
    ExceptT Failure m Nat := do
  match image.resources with
  | .error fault => throw (.extraction directory fault.message)
  | .ok rs =>
    match ← host.createDirectory directory with
    | .error reason => throw (.extraction directory reason)
    | .ok () => saveAll host image.data directory 0 rs

end Image

namespace Target

variable {m : Type → Type} [Monad m]

/-- The target of an image. -/
def ofImage [Sniffer] (host : Host m) (path : Path) (image : Image) : Target m where
  path
  render := image.render
  extract := image.extractResources host

/-- Parses an image that is in memory already. -/
def ofBytes [Sniffer] (host : Host m) (limits : Limits) (path : Path) (data : Bytes) :
    Except Failure (Target m) :=
  match Image.parse data limits with
  | .ok image => .ok (ofImage host path image)
  | .error fault => .error (.parse path fault)

/-- Reads and parses an image file. A file that cannot be read is no image. -/
def ofImageFile [Sniffer] (host : Host m) (reading : ReadLimits) (limits : Limits) (path : Path) :
    m (Except Failure (Target m)) := do
  match ← (host.readBounded reading path).run with
  | .error reason => return .error (.parse path (.io reason))
  | .ok data => return ofBytes host limits path data

end Target

end ImageTriage
