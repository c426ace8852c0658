import ImageTriage.Digest.Blake3
import ImageTriage.Digest.Md5
import ImageTriage.Digest.Sha256
import ImageTriage.Digest.Sha512

/-!
# Digests of a file

The digests by which a file is looked up, each with its label, in the order of a report.
-/

namespace ImageTriage.Digest

/-- The digests of a file with their labels. -/
def ofFile (file : Bytes) : List (String × String) :=
  [("MD5", Md5.hex file), ("SHA-256", Sha256.hex file), ("SHA-512", Sha512.hex file),
    ("BLAKE3", Blake3.hex file)]

end ImageTriage.Digest
