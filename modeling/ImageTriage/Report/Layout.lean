import ImageTriage.Text.Numeral

/-!
# Layout of a report

A report is made of blocks. A block is a title, a line of `=` under it, lines, and a blank line.
Most lines are a key and a value: the key with a colon, padded to a column, then the value.
-/

namespace ImageTriage.Report

/-- The lines, each with a line feed after it. -/
def unlines (lines : List String) : String := String.join (lines.map (· ++ "\n"))

@[simp] theorem unlines_nil : unlines [] = "" := rfl

/-- A block of a report. -/
structure Block where
  title : String
  lines : List String
  deriving DecidableEq, Repr

/-- The title and the line under it, which is as long as the title has bytes. -/
def heading (title : String) : String :=
  unlines [title, String.ofList (List.replicate title.utf8ByteSize '=')]

/-- The text of a block. -/
def Block.text (b : Block) : String := heading b.title ++ unlines b.lines ++ "\n"

/-- A line at the first level. -/
def item (text : String) : String := "  " ++ text

/-- A line at the second level. -/
def subitem (text : String) : String := "    " ++ text

/-- The column of the values at the first level. -/
def fieldWidth : Nat := 30

/-- The column of the values at the second level. -/
def subfieldWidth : Nat := 14

/-- A key and a value at the first level. -/
def field (key value : String) : String := item (Text.padRight fieldWidth (key ++ ":") ++ value)

/-- A key and a value at the second level. -/
def subfield (key value : String) : String :=
  subitem (Text.padRight subfieldWidth (key ++ ":") ++ value)

/-- A key and a number at the first level. -/
def count (key : String) (n : Nat) : String := field key (toString n)

/-- A key and a number at the second level. -/
def subcount (key : String) (n : Nat) : String := subfield key (toString n)

/-- Two numbers with a point between them. -/
def dotted (major minor : Nat) : String := toString major ++ "." ++ toString minor

/-- Names of flags in one line. -/
def flags (names : List String) : String :=
  if names = [] then "none" else String.intercalate " | " names

/-- A word of flags and their names. -/
def flagWord (width bits : Nat) (names : List String) : String :=
  Text.hexMarked width bits ++ " (" ++ flags names ++ ")"

end ImageTriage.Report
