import ImageTriage.Bytes.Basic
import ImageTriage.Files.Path

/-!
# File trees

A tree of directories and files. A place in the tree is the list of names that lead there from its
root, and a path is walked name by name: each name but the last must lead to a directory, `.` stays,
`..` goes up. An absolute path starts at the root, any other at the directory `start` of the tree.
Besides directories and files a tree has links that lead nowhere.

* `find` is what stands at a path, `read` the content of a file.
* `create` makes a directory, `createAll` a directory with all those above it.
* `write` makes a file or replaces its content.
-/

namespace ImageTriage

/-- Why something could not be done with a path. -/
inductive FileFault where
  | notFound
  | notDirectory
  | isDirectory
  | alreadyExists
  | nameTooLong
  | linkLoop
  | zeroByte
  deriving DecidableEq, Repr

/-- The wording of a fault. -/
def FileFault.message : FileFault → String
  | notFound => "No such file or directory (os error 2)"
  | notDirectory => "Not a directory (os error 20)"
  | isDirectory => "Is a directory (os error 21)"
  | alreadyExists => "File exists (os error 17)"
  | nameTooLong => "File name too long (os error 36)"
  | linkLoop => "Too many levels of symbolic links (os error 40)"
  | zeroByte => "file name contained an unexpected NUL byte"

/-- What stands at a place. In a directory the first entry of a name counts. -/
inductive FileEntry where
  | file (content : Bytes)
  | directory (inside : List (String × FileEntry))
  /-- A link that leads nowhere, and why. Nothing can be known, read or made through it. -/
  | deadLink (fault : FileFault)

/-- The names that lead to a place. -/
abbrev Place := List String

namespace FileEntry

/-- Whether the entry is a directory. -/
def isDirectory : FileEntry → Bool
  | directory _ => true
  | file _ | deadLink _ => false

/-- What stands at a place inside the entry. -/
def look? : FileEntry → Place → Option FileEntry
  | entry, [] => some entry
  | file _, _ :: _ => none
  | deadLink _, _ :: _ => none
  | directory inside, name :: rest => (inside.lookup name).bind (look? · rest)

/-- The entry with another at a place inside it. Nothing can be put inside what is no directory. -/
def put (new : FileEntry) : FileEntry → Place → FileEntry
  | _, [] => new
  | file content, _ :: _ => file content
  | deadLink fault, _ :: _ => deadLink fault
  | directory inside, name :: rest =>
    let here := (inside.lookup name).getD (directory [])
    directory ((name, put new here rest) :: inside.filter (·.1 ≠ name))

theorem lookup_filter_of_ne {name other : String} (inside : List (String × FileEntry))
    (h : other ≠ name) : (inside.filter (·.1 ≠ name)).lookup other = inside.lookup other := by
  induction inside with
  | nil => rfl
  | cons p inside ih =>
    by_cases hp : p.1 = name
    · rw [List.filter_cons_of_neg (by simp [hp]), ih, List.lookup_cons,
        beq_false_of_ne (by rw [hp]; exact h)]
    · rw [List.filter_cons_of_pos (by simp [hp]), List.lookup_cons, List.lookup_cons, ih]

theorem look?_put_self {entry : FileEntry} {above : Place} {inside : List (String × FileEntry)}
    (name : String) (new : FileEntry) (h : entry.look? above = some (.directory inside)) :
    (put new entry (above ++ [name])).look? (above ++ [name]) = some new := by
  induction above generalizing entry with
  | nil =>
    obtain rfl : entry = .directory inside := by simpa [look?] using h
    simp [put, look?]
  | cons first above ih =>
    cases entry with
    | file content => simp [look?] at h
    | deadLink fault => simp [look?] at h
    | directory entries =>
      obtain ⟨next, hnext, hlook⟩ := Option.bind_eq_some_iff.1 h
      simp [put, look?, hnext, ih hlook]

/-- Putting an entry somewhere changes nothing at places that are neither above nor below. -/
theorem look?_put_of_apart (new entry : FileEntry) {place other : Place}
    (hbelow : ¬ place <+: other) (habove : ¬ other <+: place) :
    (put new entry place).look? other = entry.look? other := by
  induction place generalizing entry other with
  | nil => exact absurd List.nil_prefix hbelow
  | cons name place ih =>
    cases entry with
    | file content => rfl
    | deadLink fault => rfl
    | directory inside =>
      cases other with
      | nil => exact absurd List.nil_prefix habove
      | cons first other =>
        by_cases h : first = name
        · subst h
          rw [List.cons_prefix_cons] at hbelow habove
          have hrest := ih ((inside.lookup first).getD (.directory []))
            (fun hp => hbelow ⟨rfl, hp⟩) (fun hp => habove ⟨rfl, hp⟩)
          cases hfirst : inside.lookup first with
          | some next => simpa [put, look?, hfirst] using hrest
          | none =>
            cases other with
            | nil => exact absurd ⟨rfl, List.nil_prefix⟩ habove
            | cons second other => simpa [put, look?, hfirst] using hrest
        · simp only [put, look?, List.lookup_cons, beq_false_of_ne h]
          rw [lookup_filter_of_ne inside h]

end FileEntry

/-- A tree of directories and files. -/
structure FileTree where
  root : FileEntry
  /-- The place where paths start that are not absolute. Unless it is given, its name is one that no
  path can write. -/
  start : Place := [""]

namespace FileTree

/-- The tree in which nothing stands but the directory where paths start. -/
def empty : FileTree := { root := .directory [("", .directory [])] }

/-- What stands at a place. -/
def look? (t : FileTree) (place : Place) : Option FileEntry := t.root.look? place

/-- The tree with the entry at the place. -/
def put (t : FileTree) (place : Place) (entry : FileEntry) : FileTree :=
  { t with root := .put entry t.root place }

/-! ## Walking -/

/-- The greatest number of bytes of a name. -/
def nameBound : Nat := 255

/-- The greatest number of bytes of a path. -/
def pathBound : Nat := 4095

/-- The place that the names lead to from the place `here`. Nothing need stand there, but the place
above it is a directory. Nothing is above the root, and `..` stays there. -/
def walk (t : FileTree) (here : Place) : List String → Except FileFault Place
  | [] => .ok here
  | name :: rest =>
    match t.look? here with
    | none => .error .notFound
    | some (.file _) => .error .notDirectory
    | some (.deadLink fault) => .error fault
    | some (.directory _) =>
      if name = "" ∨ name = "." then walk t here rest
      else if name = ".." then walk t here.dropLast rest
      else if nameBound < name.utf8ByteSize then .error .nameTooLong
      else walk t (here ++ [name]) rest

/-- Checks that a path can be walked at all. -/
def check (path : Path) : Except FileFault Unit :=
  if path.toList.contains (Char.ofNat 0) then .error .zeroByte
  else if path = "" then .error .notFound
  else if pathBound < path.utf8ByteSize then .error .nameTooLong
  else .ok ()

/-- The place where a path starts. -/
def origin (t : FileTree) (path : Path) : Place := if path.isAbsolute then [] else t.start

/-- The place of a path. -/
def place (t : FileTree) (path : Path) : Except FileFault Place := do
  check path
  t.walk (t.origin path) path.names

/-- What stands at a path. -/
def find (t : FileTree) (path : Path) : Except FileFault FileEntry := do
  match t.look? (← t.place path) with
  | some (.deadLink fault) => throw fault
  | some entry => return entry
  | none => throw .notFound

/-- Whether a directory stands at a path. -/
def isDirectory (t : FileTree) (path : Path) : Bool :=
  match t.find path with
  | .ok entry => entry.isDirectory
  | .error _ => false

/-- The content of the file at a path. -/
def read (t : FileTree) (path : Path) : Except FileFault Bytes := do
  match ← t.find path with
  | .file content => return content
  | .directory _ => throw .isDirectory
  | .deadLink fault => throw fault

/-- What stands in the directory at a path, in the order of the names; nothing when there is no
directory. -/
def list (t : FileTree) (path : Path) : List (String × FileEntry) :=
  match t.find path with
  | .ok (.directory inside) => inside.mergeSort fun a b => a.1 ≤ b.1
  | _ => []

/-- The files in the directory at a path, when there is one. -/
def filesIn? (t : FileTree) (path : Path) : Option (List (String × Bytes)) :=
  if t.isDirectory path then
    some ((t.list path).filterMap fun (name, entry) =>
      match entry with
      | .file content => some (name, content)
      | _ => none)
  else
    none

/-! ## Changing -/

/-- Makes a directory where the names lead from the place `here`. -/
def create (t : FileTree) (here : Place) (names : List String) : Except FileFault FileTree := do
  let place ← t.walk here names
  match t.look? place with
  | some _ => throw .alreadyExists
  | none => return t.put place (.directory [])

/-- Whether the names lead to a directory. -/
def leadsToDirectory (t : FileTree) (here : Place) (names : List String) : Bool :=
  match t.walk here names with
  | .ok place => (t.look? place).any FileEntry.isDirectory
  | .error _ => false

/-- A directory that could not be made does no harm if it is there. -/
def orThere (t : FileTree) (here : Place) (names : List String) (fault : FileFault) :
    Except FileFault Unit × FileTree :=
  (if t.leadsToDirectory here names then .ok () else .error fault, t)

/-- Makes the directory where the names lead once those above it have been made. -/
def createLast (t : FileTree) (here : Place) (names : List String)
    (above : Except FileFault Unit) : Except FileFault Unit × FileTree :=
  match above with
  | .error fault => (.error fault, t)
  | .ok () =>
    match t.create here names with
    | .ok made => (.ok (), made)
    | .error fault => t.orThere here names fault

/-- Makes the directories that the names lead through from the directory at `here`, one after the
other, where they are missing. Where something else stands none can be made. Those that were made
before a fault stay. -/
def createAlong (t : FileTree) (here : Place) : List String → Except FileFault Unit × FileTree
  | [] => (.ok (), t)
  | name :: rest =>
    if name = ".." then createAlong t here.dropLast rest
    else if nameBound < name.utf8ByteSize then (.error .nameTooLong, t)
    else
      let next := here ++ [name]
      match t.look? next with
      | some (.directory _) => createAlong t next rest
      | some _ => (.error .alreadyExists, t)
      | none => createAlong (t.put next (.directory [])) next rest

/-- Makes a directory with all those above it. A directory that is there already is no fault, and
directories that were made before a fault stay. The empty path is the directory where paths
start. -/
def createAll (t : FileTree) (path : Path) : Except FileFault Unit × FileTree :=
  if path = "" then (.ok (), t)
  else
    match check path with
    | .error fault => (.error fault, t)
    | .ok () =>
      let here := t.origin path
      let names := (path.names.reverse.dropWhile (· = "")).reverse
      match t.create here names with
      | .ok made => (.ok (), made)
      | .error .notFound =>
        let (result, made) := t.createAlong here path.steps.dropLast
        made.createLast here names result
      | .error fault => t.orThere here names fault

/-- Makes a file or replaces its content. -/
def write (t : FileTree) (path : Path) (content : Bytes) : Except FileFault FileTree := do
  let place ← t.place path
  match t.look? place with
  | some (.directory _) => throw .isDirectory
  | some (.deadLink fault) => throw fault
  | _ => return t.put place (.file content)

/-- The tree with a file, or with a directory when there is no content, and with the directories
above it. -/
def add (t : FileTree) (path : Path) : Option Bytes → FileTree
  | none => (t.createAll path).2
  | some content =>
    let above := (t.createAlong (t.origin path) path.steps.dropLast).2
    match above.write path content with
    | .ok written => written
    | .error _ => above

/-- The tree of the given files and directories. -/
def ofList (entries : List (Path × Option Bytes)) : FileTree :=
  entries.foldl (fun t e => t.add e.1 e.2) empty

end FileTree

end ImageTriage
