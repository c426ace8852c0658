import ImageTriage.Bytes.Basic

/-!
# Content

What a run of bytes holds. How that is told is a parameter: a `Sniffer` knows kinds of content and
tells them by their bytes.
-/

namespace ImageTriage

/-- A kind of content. -/
structure Content where
  /-- The media type. -/
  mediaType : String
  /-- The usual extension of a file name. -/
  extension : String
  deriving DecidableEq, Repr

/-- A way to tell the kind of content, inferred wherever content is looked at. -/
class Sniffer where
  /-- The kind of the content, when it is one that is known. -/
  sniff : Bytes → Option Content

namespace Content

/-- The kind of the content, when it is one that is known. -/
def detect? [Sniffer] (bytes : Bytes) : Option Content := Sniffer.sniff bytes

/-- The extension for content of no known kind. -/
def plainExtension : String := "bin"

/-- The extension for the content when its kind is told in the given way. -/
def extensionBy (detect : Bytes → Option Content) (bytes : Bytes) : String :=
  ((detect bytes).map extension).getD plainExtension

/-- The extension for the content. -/
def extensionOf [Sniffer] (bytes : Bytes) : String := extensionBy detect? bytes

end Content

end ImageTriage
