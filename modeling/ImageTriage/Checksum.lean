import ImageTriage.Bytes.Basic

/-!
# The image checksum

The checksum of an image is the end-around-carry sum of its 16-bit words, the checksum field left
out, plus the length of the file. The field is left out by position: the words at `field` and
`field + 2` are not added, so a field at an odd offset is not left out. An odd last byte counts as a
word of its own.

The running sum never exceeds 16 bits (`addWord_le`), so no carries are left at the end.
-/

namespace ImageTriage.Checksum

/-- Adds a word and brings the carry around. -/
def addWord (sum word : Nat) : Nat := (sum + word) % 65536 + (sum + word) / 65536

theorem addWord_le {sum word : Nat} (hs : sum < 65536) (hw : word < 65536) :
    addWord sum word < 65536 := by
  unfold addWord
  omega

/-- The word at offset `i`: two bytes, or the last byte alone, or nothing. -/
def wordAt (b : Bytes) (i : Nat) : Nat :=
  match b[i]?, b[i + 1]? with
  | some low, some high => low.toNat + 256 * high.toNat
  | some low, none => low.toNat
  | none, _ => 0

theorem wordAt_lt (b : Bytes) (i : Nat) : wordAt b i < 65536 := by
  unfold wordAt
  split
  · next low high _ _ =>
    have := low.toNat_lt
    have := high.toNat_lt
    omega
  · next low _ _ =>
    have := low.toNat_lt
    omega
  · omega

/-- Adds `n` words from offset `i` on, except those of the field. -/
def sumFrom (b : Bytes) (field : Nat) : Nat → Nat → Nat → Nat
  | 0, _, sum => sum
  | n + 1, i, sum =>
    sumFrom b field n (i + 2)
      (if i = field ∨ i = field + 2 then sum else addWord sum (wordAt b i))

/-- The checksum of a file whose checksum field lies at offset `field`. -/
def compute (b : Bytes) (field : Nat) : UInt32 :=
  UInt32.ofNat (sumFrom b field ((b.size + 1) / 2) 0 0 + b.size)

end ImageTriage.Checksum
