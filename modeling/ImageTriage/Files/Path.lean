import ImageTriage.Text.Pieces

/-!
# Paths

A path is text with slashes between names. It is kept as it was given, since reports show it so.
-/

namespace ImageTriage

/-- A path as it was given. -/
abbrev Path := String

namespace Path

/-- Whether the path starts at the root of all files. -/
def isAbsolute (path : Path) : Bool := path.toList.head? == some '/'

/-- The path of a name in a directory. An absolute name replaces the directory, and one slash
separates them unless the directory is empty or ends with one. -/
def join (directory name : Path) : Path :=
  if isAbsolute name then name
  else if directory = "" ∨ directory.toList.getLast? = some '/' then directory ++ name
  else directory ++ "/" ++ name

/-- The names between the slashes, some of them perhaps empty. -/
def names (path : Path) : List String := (Text.pieces '/' path.toList).map String.ofList

/-- The names that lead somewhere: neither empty nor a single point. -/
def steps (path : Path) : List String := path.names.filter fun name => name ≠ "" ∧ name ≠ "."

end Path

end ImageTriage
