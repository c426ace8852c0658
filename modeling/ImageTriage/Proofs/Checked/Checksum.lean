import ImageTriage.Checksum
import ImageTriage.Proofs.Checked.Basic

/-!
# The checked checksum

The words are added up in a machine word. As every carry is brought around at once, the sum stays
below 2^16, and nothing is left to bring around in the end. The last word of a file of odd length is
read as a single byte, for the byte after it is not there.
-/

namespace ImageTriage

namespace Checked

/-- Whether the word at offset `i` belongs to the checksum field. -/
def inField (field i : Nat) : Checked Bool := do
  if i = field then
    return true
  else
    let second ← add field 2
    return i = second

/-- `Checksum.wordAt` with checked steps. -/
def checksumWord (b : Bytes) (i : Nat) : Checked Nat := do
  let next ← add i 1
  let low ← byte b i
  if next < b.size then
    let high ← byte b next
    return low.toNat + 256 * high.toNat
  else
    return low.toNat

/-- Brings the carries out of the low 16 bits around. -/
def carryAround (sum : Nat) : Checked Nat := add (sum % 65536) (sum / 65536)

/-- How far the words are added up. -/
structure SumState where
  offset : Nat
  sum : Nat

/-- Adds one word, unless it is in the checksum field or past the end. -/
def sumTurn (b : Bytes) (field : Nat) (s : SumState) : Checked (Turn SumState Nat) := do
  if b.size ≤ s.offset then
    return .answer s.sum
  else
    let next ← add s.offset 2
    if ← inField field s.offset then
      return .again { s with offset := next }
    else
      let word ← checksumWord b s.offset
      let sum ← carryAround ((s.sum + word) % wordSize)
      return .again { offset := next, sum }

/-- Brings carries around, unless there are none. -/
def carryTurn (sum : Nat) : Checked (Turn Nat Nat) := do
  if sum / 65536 = 0 then
    return .answer sum
  else
    return .again (← carryAround sum)

/-- `Checksum.compute` with checked steps. -/
def checksum (b : Bytes) (field : Nat) : Checked UInt32 := do
  let sum ← loop (sumTurn b field) (b.size + 1) { offset := 0, sum := 0 }
  let sum ← loop carryTurn (sum + 1) sum
  return UInt32.ofNat ((sum + b.size) % wordSize)

variable {b : Bytes} {field i sum : Nat}

theorem inField_eq (h : field + 2 < 2 ^ 64) :
    inField field i = done (.ok (decide (i = field ∨ i = field + 2))) := by
  unfold inField
  rw [add_eq h, ok_bind]
  by_cases hi : i = field
  · rw [if_pos hi, decide_eq_true (.inl hi)]
    rfl
  · rw [if_neg hi]
    simp [hi]

theorem checksumWord_eq (hb : b.size < 2 ^ 62) (hi : i < b.size) :
    checksumWord b i = done (.ok (Checksum.wordAt b i)) := by
  have hlow : b[i]? = some b[i] := getElem?_pos b i hi
  rw [checksumWord, Checksum.wordAt, add_eq (by omega), ok_bind, byte_eq hlow, ok_bind, hlow]
  by_cases hnext : i + 1 < b.size
  · have hhigh : b[i + 1]? = some b[i + 1] := getElem?_pos b (i + 1) hnext
    rw [if_pos hnext, byte_eq hhigh, ok_bind, hhigh]
    rfl
  · have hnone : b[i + 1]? = none := getElem?_neg b (i + 1) hnext
    rw [if_neg hnext, hnone]
    rfl

theorem carryAround_eq {word : Nat} (hs : sum < 65536) (hw : word < 65536) :
    carryAround ((sum + word) % wordSize) = done (.ok (Checksum.addWord sum word)) := by
  have hmod : (sum + word) % wordSize = sum + word := by
    refine Nat.mod_eq_of_lt ?_
    unfold wordSize
    omega
  rw [hmod, carryAround, add_eq (by omega)]
  rfl

theorem sumFrom_lt {n : Nat} (hs : sum < 65536) : Checksum.sumFrom b field n i sum < 65536 := by
  induction n generalizing i sum with
  | zero => exact hs
  | succ n ih =>
    unfold Checksum.sumFrom
    refine ih ?_
    split
    · exact hs
    · exact Checksum.addWord_le hs (Checksum.wordAt_lt b i)

/-- A turn over a word of the file. -/
theorem sumTurn_eq (hb : b.size < 2 ^ 62) (hfield : field + 2 < 2 ^ 64) (hi : i < b.size)
    (hs : sum < 65536) : sumTurn b field ⟨i, sum⟩ = done (.ok (.again ⟨i + 2,
      if i = field ∨ i = field + 2 then sum else Checksum.addWord sum (Checksum.wordAt b i)⟩)) := by
  rw [sumTurn]
  dsimp only
  rw [if_neg (by omega), add_eq (by omega), ok_bind, inField_eq hfield, ok_bind,
    checksumWord_eq hb hi, ok_bind, carryAround_eq hs (Checksum.wordAt_lt b i), ok_bind]
  simp only [decide_eq_true_eq]
  split <;> rfl

/-- The loop over the words of the file. The sum keeps to 16 bits. -/
theorem sumLoop_eq (hb : b.size < 2 ^ 62) (hfield : field + 2 < 2 ^ 64) :
    loop (sumTurn b field) (b.size + 1) ⟨0, 0⟩ =
      done (.ok (Checksum.sumFrom b field ((b.size + 1) / 2) 0 0)) := by
  refine loop_eq
    (fun s : SumState =>
      .ok (Checksum.sumFrom b field ((b.size - s.offset + 1) / 2) s.offset s.sum))
    (fun s => s.sum < 65536) (fun s => b.size - s.offset) ?_ (by decide) (by dsimp only; omega)
  rintro ⟨i, sum⟩ hs
  dsimp only at hs
  by_cases hi : i < b.size
  · have hcount : (b.size - i + 1) / 2 = (b.size - (i + 2) + 1) / 2 + 1 := by omega
    refine .again _ (sumTurn_eq hb hfield hi hs) ?_ (by dsimp only; omega) ?_
    · dsimp only
      split
      · exact hs
      · exact Checksum.addWord_le hs (Checksum.wordAt_lt b i)
    · dsimp only
      rw [hcount, Checksum.sumFrom]
  · have hcount : (b.size - i + 1) / 2 = 0 := by omega
    refine .answer sum ?_ ?_
    · rw [sumTurn]
      dsimp only
      rw [if_pos (by omega)]
      rfl
    · dsimp only
      rw [hcount, Checksum.sumFrom]

theorem carryLoop_eq (hs : sum < 65536) : loop carryTurn (sum + 1) sum = done (.ok sum) := by
  have hnone : sum / 65536 = 0 := Nat.div_eq_of_lt hs
  rw [loop, carryTurn, if_pos hnone]
  rfl

/-- The checksum is computed without a trap. -/
theorem checksum_eq (hb : b.size < 2 ^ 62) (hfield : field + 2 < 2 ^ 64) :
    checksum b field = done (.ok (Checksum.compute b field)) := by
  have hsum : Checksum.sumFrom b field ((b.size + 1) / 2) 0 0 < 65536 := sumFrom_lt (by decide)
  have hmod : (Checksum.sumFrom b field ((b.size + 1) / 2) 0 0 + b.size) % wordSize =
      Checksum.sumFrom b field ((b.size + 1) / 2) 0 0 + b.size := by
    refine Nat.mod_eq_of_lt ?_
    unfold wordSize
    omega
  rw [checksum, sumLoop_eq hb hfield, ok_bind, carryLoop_eq hsum, ok_bind, hmod]
  rfl

end Checked

end ImageTriage
