import ImageTriage.Batch.Signature
import ImageTriage.Failure
import ImageTriage.Files.Reader
import ImageTriage.Files.Tree

/-!
# What a run works on

A run reads and writes files and writes two streams, one for the report and one for diagnostics. A
`Host` is the list of these operations in some monad; the run is written over any host. A `World` is
a host that is plain data: a file tree, two streams, and a journal of what the engines were asked.

A `Stream` may have room for a number of bytes only. It takes what fits and then fails.
-/

namespace ImageTriage

/-- What is known of a path without reading it. -/
inductive FileStatus where
  | directory
  | file (size : Nat)
  deriving DecidableEq, Repr

/-- The operations of a run on its surroundings. Each gives a reason when it fails. -/
structure Host (m : Type → Type) where
  status : Path → m (Except String FileStatus)
  content : Path → m (Except String Bytes)
  /-- What is in a directory, entry by entry: a name with whether it is a directory itself, or the
  reason why that cannot be known. -/
  children : Path → m (List (Except String (String × Bool)))
  /-- Makes a directory and those above it. -/
  createDirectory : Path → m (Except String Unit)
  writeFile : Path → Bytes → m (Except String Unit)
  /-- Writes to the report. -/
  writeOut : String → m (Except String Unit)
  /-- Writes to the diagnostics. -/
  writeErr : String → m (Except String Unit)

namespace Host

variable {m : Type → Type} [Monad m]

/-- Whether something stands at a path. -/
def isThere (host : Host m) (path : Path) : m Bool := do
  match ← host.status path with
  | .ok _ => return true
  | .error _ => return false

/-- Whether a directory stands at a path. -/
def isDirectory (host : Host m) (path : Path) : m Bool := do
  match ← host.status path with
  | .ok .directory => return true
  | _ => return false

/-- The size of the file at a path, once it is known that it may be read. -/
def checkedSize (host : Host m) (limits : ReadLimits) (path : Path) : ExceptT String m Nat := do
  match ← ExceptT.mk (host.status path) with
  | .directory => throw "is a directory"
  | .file size =>
    ExceptT.mk (pure (limits.checkSize size))
    return size

/-- The content of the file at a path, when the limits allow to read it. -/
def readBounded (host : Host m) (limits : ReadLimits) (path : Path) : ExceptT String m Bytes := do
  let _ ← host.checkedSize limits path
  let content ← ExceptT.mk (host.content path)
  ExceptT.mk (pure (limits.readAll content))

/-- Writes to the report. A report that cannot be written ends the run. -/
def print (host : Host m) (text : String) : ExceptT Failure m Unit := do
  match ← host.writeOut text with
  | .ok () => return ()
  | .error reason => throw (.io reason)

/-- Writes to the diagnostics. Diagnostics that cannot be written end the run. -/
def say (host : Host m) (text : String) : ExceptT Failure m Unit := do
  match ← host.writeErr text with
  | .ok () => return ()
  | .error reason => throw (.io reason)

end Host

/-! ## A host that is plain data -/

/-- A stream of bytes. -/
structure Stream where
  written : Bytes := .empty
  /-- How many more bytes it takes; any number when there is none. -/
  room : Option Nat := none

namespace Stream

/-- Why a full stream fails. -/
def full : String := "no space left on device"

/-- Writes a text: all of it when there is room, else as much as fits. -/
def write (s : Stream) (text : String) : Except String Unit × Stream :=
  let bytes := text.toUTF8
  match s.room with
  | none => (.ok (), { s with written := s.written ++ bytes })
  | some room =>
    if bytes.size ≤ room then
      (.ok (), { written := s.written ++ bytes, room := some (room - bytes.size) })
    else
      (.error full, { written := s.written ++ bytes.extract 0 room, room := some 0 })

/-- What was written, as text. -/
def text (s : Stream) : String := (String.fromUTF8? s.written).getD ""

/-- A stream with any room takes all of a text. -/
theorem write_of_open {s : Stream} (h : s.room = none) (text : String) :
    s.write text = (.ok (), { s with written := s.written ++ text.toUTF8 }) := by
  unfold write
  rw [h]

end Stream

/-- What an engine was asked to do. -/
inductive EngineCall where
  | loaded (kind : EngineKind) (rules : Path)
  | scanned (kind : EngineKind) (target : Path)
  deriving DecidableEq, Repr

/-- The surroundings of a run. -/
structure World where
  files : FileTree := .empty
  out : Stream := {}
  err : Stream := {}
  /-- What the engines were asked, in order. -/
  journal : Array EngineCall := #[]

namespace World

/-- The outcome of an operation on files, with its wording. -/
def told {α : Type} : Except FileFault α → Except String α
  | .ok a => .ok a
  | .error fault => .error fault.message

/-- What is known of a path. -/
def status (w : World) (path : Path) : Except String FileStatus :=
  match w.files.find path with
  | .ok (.directory _) => .ok .directory
  | .ok (.file content) => .ok (.file content.size)
  | .ok (.deadLink fault) | .error fault => .error fault.message

/-- What is in a directory. -/
def children (w : World) (path : Path) : List (Except String (String × Bool)) :=
  (w.files.list path).map fun (name, entry) =>
    match entry with
    | .deadLink fault => .error fault.message
    | entry => .ok (name, entry.isDirectory)

/-- Makes a directory and those above it. -/
def createDirectory (w : World) (path : Path) : Except String Unit × World :=
  let (result, files) := w.files.createAll path
  (told result, { w with files })

/-- Makes a file or replaces its content. -/
def writeFile (w : World) (path : Path) (content : Bytes) : Except String Unit × World :=
  match w.files.write path content with
  | .ok files => (.ok (), { w with files })
  | .error fault => (.error fault.message, w)

/-- Writes to the report. -/
def writeOut (w : World) (text : String) : Except String Unit × World :=
  let (result, out) := w.out.write text
  (result, { w with out })

/-- Writes to the diagnostics. -/
def writeErr (w : World) (text : String) : Except String Unit × World :=
  let (result, err) := w.err.write text
  (result, { w with err })

/-- Notes what an engine was asked. -/
def note (call : EngineCall) : StateM World Unit :=
  modify fun w => { w with journal := w.journal.push call }

/-- The host that works on a world. -/
def host : Host (StateM World) where
  status path := fun w => (w.status path, w)
  content path := fun w => (told (w.files.read path), w)
  children path := fun w => (w.children path, w)
  createDirectory path := fun w => w.createDirectory path
  writeFile path content := fun w => w.writeFile path content
  writeOut text := fun w => w.writeOut text
  writeErr text := fun w => w.writeErr text

end World

end ImageTriage
