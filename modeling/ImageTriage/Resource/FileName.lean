import ImageTriage.Content
import ImageTriage.Resource.Tree
import ImageTriage.Text.Numeral

/-!
# File names for resources

A resource is saved under `kind_name_language.extension`. Kinds and names come from the image and
may hold any character, so every character that is not plainly safe in a file name becomes `_`. The
extension follows from the kind of the resource where that settles the format, and else from its
data.
-/

namespace ImageTriage

namespace FileName

/-- Whether a character may stand in a file name: an ASCII letter or digit, `_`, `.` or `-`. -/
def isSafe (c : Char) : Bool := c.isAlphanum || c == '_' || c == '.' || c == '-'

/-- The text with `_` for every character that is not safe. -/
def sanitize (s : String) : String := s.map fun c => if isSafe c then c else '_'

/-- Every character of a sanitized text is safe. -/
theorem isSafe_of_mem_sanitize {s : String} {c : Char} (h : c ∈ (sanitize s).toList) :
    isSafe c := by
  simp only [sanitize, String.toList_map, List.mem_map] at h
  obtain ⟨d, -, rfl⟩ := h
  split
  · assumption
  · decide

end FileName

namespace Resource

/-- The extension that a kind of resource implies. -/
def kindExtension? : ResourceId → Option String
  | .named _ => none
  | .number n =>
    if n = ResourceId.icon ∨ n = ResourceId.iconGroup then some "ico"
    else if n = ResourceId.bitmap then some "bmp"
    else if n = ResourceId.manifest then some "xml"
    else if n = ResourceId.version ∨ n = ResourceId.stringTable then some "txt"
    else if n = ResourceId.hypertext then some "html"
    else none

/-- The name of the file for a resource with the given data, the kind of which is told in the given
way. -/
def fileNameBy (detect : Bytes → Option Content) (r : Resource) (data : Bytes) : String :=
  FileName.sanitize
      (r.kind.kindName ++ "_" ++ r.name.text ++ "_" ++ Text.hex 4 r.language.toNat)
    ++ "." ++ (kindExtension? r.kind).getD (Content.extensionBy detect data)

/-- The name of the file for a resource with the given data. -/
def fileName [Sniffer] (r : Resource) (data : Bytes) : String :=
  r.fileNameBy Content.detect? data

end Resource

end ImageTriage
