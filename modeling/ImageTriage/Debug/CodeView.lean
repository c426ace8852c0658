import ImageTriage.Bytes.Basic
import ImageTriage.Text.Numeral
import ImageTriage.Text.Utf8

/-!
# CodeView records

A CodeView record names the file with the debugging symbols of an image. There are two forms: `RSDS`
identifies the file by a GUID, `NB10` by a 32-bit stamp. Both give an age and the path of the file,
up to a zero byte.
-/

namespace ImageTriage

/-- The text of a GUID: the first three fields are little-endian words, the last eight bytes stand
in order. -/
def guidText (b : Bytes) : String :=
  let word (i n : Nat) := (b.leNat? i n).getD 0
  let bytes (i n : Nat) := Text.hexOfBytesUpper (Bytes.list (b.extract i (i + n)))
  Text.hexUpper 8 (word 0 4) ++ "-" ++ Text.hexUpper 4 (word 4 2) ++ "-"
    ++ Text.hexUpper 4 (word 6 2) ++ "-" ++ bytes 8 2 ++ "-" ++ bytes 10 6

/-- Where the debugging symbols of an image are. -/
structure CodeView where
  /-- `RSDS` or `NB10`. -/
  signature : String
  /-- The text of the GUID, or of the stamp. -/
  guid : String
  age : UInt32
  path : String
  deriving DecidableEq, Repr

namespace CodeView

/-- The greatest number of bytes of a path. -/
def pathBound : Nat := 1024

/-- Reads a CodeView record; `none` when it is of neither form, or too short, or its path is no
text. -/
def parse? (b : Bytes) : Option CodeView := do
  let signature ← b.slice? 0 4
  if signature = "RSDS".toUTF8 then
    let guid ← b.slice? 4 16
    return {
      signature := "RSDS"
      guid := guidText guid
      age := ← b.u32? 20
      path := ← b.cstring? 24 pathBound }
  else if signature = "NB10".toUTF8 then
    let stamp ← b.u32? 8
    return {
      signature := "NB10"
      guid := Text.hexUpper 8 stamp.toNat
      age := ← b.u32? 12
      path := ← b.cstring? 16 pathBound }
  else
    none

end CodeView

end ImageTriage
