import ImageTriage.Content

/-!
# Kinds of content

A detector of content by its first bytes. `Content.kinds` lists the kinds that are looked for, each
with the evidence for it; `Content.kindOf?` answers the first of them that fits.
-/

namespace ImageTriage.Content

/-- What shows that bytes are of a kind. -/
inductive Evidence where
  /-- There are `least` bytes or more, and one of the marks stands at the offset. -/
  | mark (least offset : Nat) (marks : List (List UInt8))
  /-- After blanks stands one of the tags, in either case, and a space or `>` after it. -/
  | tag (tags : List String)
  /-- After blanks and byte order marks stands `<?xml`, in either case. -/
  | declaration

/-- The bytes of a text. -/
def textBytes (s : String) : List UInt8 := s.toUTF8.data.toList

/-- A blank before markup: a tab, a line feed, a form feed, a carriage return or a space. -/
def isMarkupBlank (b : UInt8) : Bool := b == 9 || b == 10 || b == 12 || b == 13 || b == 32

/-- The byte with its ASCII capitals made small. -/
def lowerByte (b : UInt8) : UInt8 := if 65 ≤ b ∧ b ≤ 90 then b + 32 else b

/-- The offset of the first byte from offset `i` on that is no blank. -/
def afterBlanks (bytes : Bytes) (i : Nat) : Nat :=
  if h : i < bytes.size then
    if isMarkupBlank bytes[i] then afterBlanks bytes (i + 1) else i
  else
    i
termination_by bytes.size - i

/-- The offset after the byte order marks from offset `i` on. A mark counts only where three bytes
are left. -/
def afterByteOrderMarks (bytes : Bytes) (i : Nat) : Nat :=
  if i + 3 ≤ bytes.size then
    let byte (k : Nat) := (bytes[i + k]?).getD 0
    if byte 0 = 0xEF ∧ byte 1 = 0xBB ∧ byte 2 = 0xBF then afterByteOrderMarks bytes (i + 3)
    else if (byte 0 = 0xFE ∧ byte 1 = 0xFF) ∨ (byte 0 = 0xFF ∧ byte 1 = 0xFE) then
      afterByteOrderMarks bytes (i + 2)
    else
      i
  else
    i
termination_by bytes.size - i

/-- Whether the text stands at offset `i`, in either case. -/
def hasText (bytes : Bytes) (i : Nat) : List UInt8 → Bool
  | [] => true
  | m :: marks =>
    (bytes[i]?).any (lowerByte · == lowerByte m) && hasText bytes (i + 1) marks

/-- Whether the tag stands at offset `i`, in either case, with a space or `>` after it. -/
def hasTag (bytes : Bytes) (i : Nat) (tag : List UInt8) : Bool :=
  hasText bytes i tag && (bytes[i + tag.length]?).any fun next => next == 0x20 || next == 0x3E

/-- Whether the bytes show the evidence. -/
def Evidence.holds (bytes : Bytes) : Evidence → Bool
  | mark least offset marks =>
    least ≤ bytes.size && marks.any fun m => bytes.slice? offset m.length == some ⟨m.toArray⟩
  | tag tags =>
    let start := afterBlanks bytes 0
    tags.any fun t => hasTag bytes start (textBytes t)
  | declaration =>
    hasText bytes (afterByteOrderMarks bytes (afterBlanks bytes 0)) (textBytes "<?xml")

/-- The evidence that the text stands at the start. -/
def Evidence.text (s : String) : Evidence := mark 0 0 [textBytes s]

/-- The tags that show a page of hypertext. -/
def pageTags : List String :=
  ["<!DOCTYPE HTML", "<HTML", "<HEAD", "<SCRIPT", "<IFRAME", "<H1", "<DIV", "<FONT", "<TABLE",
    "<A", "<STYLE", "<TITLE", "<B", "<BODY", "<BR", "<P", "<!--"]

/-- The kinds that are looked for, in order, with the evidence for each. -/
def kinds : List (Content × Evidence) :=
  [(⟨"application/wasm", "wasm"⟩, .mark 8 0 [[0x00, 0x61, 0x73, 0x6D, 0x01, 0x00, 0x00, 0x00]]),
    (⟨"application/x-executable", "elf"⟩, .mark 53 0 [[0x7F, 0x45, 0x4C, 0x46]]),
    (⟨"application/vnd.microsoft.portable-executable", "exe"⟩, .text "MZ"),
    (⟨"application/x-x509-ca-cert", "der"⟩, .mark 3 0 [[0x30, 0x82]]),
    (⟨"application/x-executable", "obj"⟩, .mark 3 0 [[0x64, 0x86], [0x4C, 0x01], [0x00, 0x02]]),
    (⟨"application/x-x509-ca-cert", "pem"⟩, .mark 12 0 [textBytes "-----BEGIN "]),
    (⟨"image/jpeg", "jpg"⟩, .mark 0 0 [[0xFF, 0xD8, 0xFF]]),
    (⟨"image/png", "png"⟩, .mark 0 0 [[0x89, 0x50, 0x4E, 0x47]]),
    (⟨"image/gif", "gif"⟩, .text "GIF"),
    (⟨"image/webp", "webp"⟩, .mark 0 8 [textBytes "WEBP"]),
    (⟨"image/bmp", "bmp"⟩, .text "BM"),
    (⟨"image/vnd.microsoft.icon", "ico"⟩, .mark 0 0 [[0x00, 0x00, 0x01, 0x00]]),
    (⟨"application/zip", "zip"⟩,
      .mark 0 0 [[0x50, 0x4B, 0x03, 0x04], [0x50, 0x4B, 0x05, 0x06], [0x50, 0x4B, 0x07, 0x08]]),
    (⟨"application/vnd.rar", "rar"⟩,
      .mark 0 0 [[0x52, 0x61, 0x72, 0x21, 0x1A, 0x07, 0x00],
        [0x52, 0x61, 0x72, 0x21, 0x1A, 0x07, 0x01]]),
    (⟨"application/gzip", "gz"⟩, .mark 0 0 [[0x1F, 0x8B, 0x08]]),
    (⟨"application/x-bzip2", "bz2"⟩, .text "BZh"),
    (⟨"application/x-7z-compressed", "7z"⟩, .mark 0 0 [[0x37, 0x7A, 0xBC, 0xAF, 0x27, 0x1C]]),
    (⟨"application/pdf", "pdf"⟩, .text "%PDF"),
    (⟨"application/rtf", "rtf"⟩, .text "\x7b\\rtf"),
    (⟨"application/vnd.ms-cab-compressed", "cab"⟩, .text "MSCF"),
    (⟨"text/html", "html"⟩, .tag pageTags),
    (⟨"text/xml", "xml"⟩, .declaration),
    (⟨"text/x-shellscript", "sh"⟩, .mark 3 0 [textBytes "#!"])]

/-- The kind of the content, when it is one of those looked for. -/
def kindOf? (bytes : Bytes) : Option Content :=
  (kinds.find? fun kind => kind.2.holds bytes).map Prod.fst

/-- The sniffer that knows these kinds. -/
abbrev sniffer : Sniffer := ⟨kindOf?⟩

end ImageTriage.Content
