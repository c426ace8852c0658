/-!
# Lower case

Names of libraries, functions and categories are compared in lower case, as far as they are ASCII.
-/

namespace ImageTriage.Text

/-- The text with its capital letters from A to Z made small. -/
def lower (s : String) : String := s.map Char.toLower

end ImageTriage.Text
