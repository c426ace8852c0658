/-!
# Limits on a hostile file

A file can name far more resources, imports or blocks than it could ever hold. Each table is read up
to a limit.
-/

namespace ImageTriage

/-- How much of each table is read. -/
structure Limits where
  /-- The number of levels of the resource tree. -/
  resourceDepth : Nat := 3
  resources : Nat := 10000
  imports : Nat := 10000
  exports : Nat := 10000
  relocationBlocks : Nat := 100000
  tlsCallbacks : Nat := 256
  deriving DecidableEq, Repr, Inhabited

end ImageTriage
