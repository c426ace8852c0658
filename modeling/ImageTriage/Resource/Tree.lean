import ImageTriage.Header.Directory
import ImageTriage.Resource.Kind
import ImageTriage.Section.Mapping
import ImageTriage.Text.Utf16

/-!
# The resource tree

Resources form a tree in the file: directories of kinds, of names, and of languages, and leaves that
say where the data of a resource lies. All references are offsets from the root directory, so
directories may be shared and may even contain themselves. `walk` goes down a bounded number of
levels and collects a bounded number of leaves, in the order of the entries, depth first.

The chain of identifiers from the root gives a leaf its kind, name and language; where the chain is
too short the identifier is zero, and a language that is not a number is zero too.
-/

namespace ImageTriage

/-- A resource: a leaf of the tree. -/
structure Resource where
  kind : ResourceId
  name : ResourceId
  language : UInt32
  codePage : UInt32
  address : UInt32
  size : UInt32
  /-- The file offset of the data, when the file holds all of it. -/
  offset? : Option Nat
  deriving DecidableEq, Repr

namespace Resource

/-- The data of a resource. -/
def data? (r : Resource) (file : Bytes) : Option Bytes :=
  r.offset?.bind fun i => file.slice? i r.size.toNat

/-- A 16-bit field of the tree. -/
def u16 (b : Bytes) (i : Nat) : Except Fault UInt16 := orFault .resourceDirectory (b.u16? i)

/-- A 32-bit field of the tree. -/
def u32 (b : Bytes) (i : Nat) : Except Fault UInt32 := orFault .resourceDirectory (b.u32? i)

/-- Whether the high bit of a reference is set. -/
def isMarked (reference : UInt32) : Bool := reference &&& 0x80000000 != 0

/-- The offset that a reference gives, from the root at offset `base`. -/
def target (base : Nat) (reference : UInt32) : Nat :=
  base + (reference &&& 0x7FFFFFFF).toNat

/-- The identifier of an entry: a number, or a reference to a counted text. -/
def readId (b : Bytes) (base : Nat) (reference : UInt32) : Except Fault ResourceId :=
  if isMarked reference then do
    let i := target base reference
    let length ← u16 b i
    match b.utf16Units (i + 2) length.toNat with
    | .ok text => return .named text
    | .error _ => throw .resourceDirectory
  else
    .ok (.number reference)

/-- The kind, name and language that a chain of identifiers gives. -/
def identify : List ResourceId → ResourceId × ResourceId × UInt32
  | [] => (.number 0, .number 0, 0)
  | [kind] => (kind, .number 0, 0)
  | kind :: name :: .number language :: _ => (kind, name, language)
  | kind :: name :: _ => (kind, name, 0)

/-- The leaf at offset `i`, reached by the identifiers of `path`, the last one first. -/
def readLeaf (m : MappedFile) (i : Nat) (path : List ResourceId) : Except Fault Resource := do
  let address ← u32 m.file i
  let size ← u32 m.file (i + 4)
  let codePage ← u32 m.file (i + 8)
  let offset? := (m.sections.offset? address).filter (· + size.toNat ≤ m.file.size)
  let (kind, name, language) := identify path.reverse
  return { kind, name, language, codePage, address, size, offset? }

/-- A way to collect the leaves below the directory at an offset, which was reached by the
identifiers of a path, the last one first: it adds them to those that were found before. -/
abbrev Descent := Nat → List ResourceId → Array Resource → Except Fault (Array Resource)

/-- Collects the leaf or the leaves below the entry at offset `i`, in a directory that was reached
by the identifiers of `path`. -/
def walkEntry (m : MappedFile) (base : Nat) (descend : Descent) (path : List ResourceId) (i : Nat)
    (found : Array Resource) : Except Fault (Array Resource) := do
  let idReference ← u32 m.file i
  let reference ← u32 m.file (i + 4)
  let id ← readId m.file base idReference
  if isMarked reference then
    descend (target base reference) (id :: path) found
  else
    return found.push (← readLeaf m (target base reference) (id :: path))

/-- Collects the leaves below `n` entries from offset `i` on. Nothing is read once `limit` leaves
are found. -/
def walkEntries (m : MappedFile) (base limit : Nat) (descend : Descent) (path : List ResourceId) :
    Nat → Nat → Array Resource → Except Fault (Array Resource)
  | 0, _, found => .ok found
  | n + 1, i, found =>
    if limit ≤ found.size then .ok found
    else
      match walkEntry m base descend path i found with
      | .error fault => .error fault
      | .ok found => walkEntries m base limit descend path n (i + 8) found

/-- Collects the leaves below a directory, going down at most `levels` levels. -/
def walk (m : MappedFile) (base limit : Nat) : Nat → Descent
  | 0, _, _, _ => .error .resourceDepth
  | levels + 1, i, path, found => do
    let named ← u16 m.file (i + 12)
    let numbered ← u16 m.file (i + 14)
    walkEntries m base limit (walk m base limit levels) path (named.toNat + numbered.toNat) (i + 16)
      found

/-- Reads the resource directory, when the image has one: at most `levels` levels and `limit`
resources. -/
def parseAll (m : MappedFile) (dir : DataDirectory) (levels limit : Nat) :
    Except Fault (List Resource) := do
  if !dir.isPresent then
    return []
  let base ← m.offset dir.address
  let found ← walk m base limit levels base [] #[]
  return found.toList

end Resource

end ImageTriage
