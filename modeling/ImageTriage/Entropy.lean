import ImageTriage.Bytes.Basic

/-!
# Entropy of bytes

The Shannon entropy of the byte frequencies, in bits per byte: near 8 for compressed or encrypted
data, 0 for a run of one byte. The terms are summed in the order of the byte values.
-/

namespace ImageTriage

/-- How often each byte value occurs. -/
def byteCounts (b : Bytes) : Array Nat :=
  b.foldl (fun counts c => counts.modify c.toNat (· + 1)) (Array.replicate 256 0)

/-- The entropy of the bytes, in bits per byte; 0 when there are none. -/
def entropy (b : Bytes) : Float :=
  let total := Float.ofNat b.size
  (byteCounts b).foldl (fun sum count =>
    if count = 0 then sum
    else
      let p := Float.ofNat count / total
      sum - p * p.log2) 0.0

end ImageTriage
