import ImageTriage.Checksum
import ImageTriage.Fault

/-!
# The sum behind the checksum

Bringing the carries around after each word comes to the same as bringing them around once, at the
end of the exact sum (`compute_eq_around`): what counts of a sum is its rest modulo 65535, with
65535 itself in the place of zero unless all words are zero. So two files have the same checksum
when the words outside the field are the same (`total_congr`), and different ones when one byte that
is added up goes from zero to one (`compute_ne_of_flip`).
-/

namespace ImageTriage.Checksum

variable {b d : Bytes} {field i n : Nat}

/-- What is left of a sum when all its carries are brought around. -/
def around (sum : Nat) : Nat := if sum = 0 then 0 else 1 + (sum - 1) % 65535

/-- The exact sum of `n` words from offset `i` on, without those of the field. -/
def total (b : Bytes) (field : Nat) : Nat → Nat → Nat
  | 0, _ => 0
  | n + 1, i => (if i = field ∨ i = field + 2 then 0 else wordAt b i) + total b field n (i + 2)

theorem around_le (sum : Nat) : around sum ≤ 65535 := by
  unfold around
  split <;> omega

theorem around_zero : around 0 = 0 := rfl

theorem around_add_ne (sum : Nat) : around (sum + 256) ≠ around sum := by
  unfold around
  split <;> split <;> omega

theorem addWord_around {sum word : Nat} (hword : word < 65536) :
    addWord (around sum) word = around (sum + word) := by
  unfold addWord around
  split
  · split <;> omega
  · rw [if_neg (by omega)]
    omega

theorem sumFrom_around (sum : Nat) :
    sumFrom b field n i (around sum) = around (sum + total b field n i) := by
  induction n generalizing i sum with
  | zero => rfl
  | succ n ih =>
    rw [sumFrom, total]
    split
    · rw [ih, Nat.zero_add]
    · rw [addWord_around (wordAt_lt b i), ih, Nat.add_assoc]

/-- The checksum, with all carries brought around at the end. -/
theorem compute_eq_around (b : Bytes) (field : Nat) :
    compute b field = UInt32.ofNat (around (total b field ((b.size + 1) / 2) 0) + b.size) := by
  rw [compute, ← around_zero, sumFrom_around, Nat.zero_add]

/-- Only the words outside the field count. -/
theorem total_congr
    (h : ∀ k, i ≤ k → k % 2 = i % 2 → k ≠ field → k ≠ field + 2 → wordAt b k = wordAt d k) :
    total b field n i = total d field n i := by
  induction n generalizing i with
  | zero => rfl
  | succ n ih =>
    have hrest := ih (i := i + 2) fun k hk hparity => h k (by omega) (by omega)
    rw [total, total, hrest]
    split
    · rfl
    · rw [h i (Nat.le_refl i) rfl (by omega) (by omega)]

/-! ## One byte more -/

section Flip

variable (hother : ∀ k, k ≠ field → d[k]? = b[k]?) (hb : b[field]? = some 0)
  (hd : d[field]? = some 1)
include hother hb hd

omit hb hd in
theorem wordAt_flip_of_ne {k : Nat} (hk : k ≠ field) (hnext : k + 1 ≠ field) :
    wordAt d k = wordAt b k := by
  rw [wordAt, hother k hk, hother (k + 1) hnext, wordAt]

theorem wordAt_flip {k : Nat} (hk : k + 1 = field) : wordAt d k = wordAt b k + 256 := by
  obtain ⟨hfits, -⟩ := getElem?_eq_some_iff.1 hb
  have hlow : b[k]? = some b[k] := getElem?_pos b k (by omega)
  rw [wordAt, wordAt, hother k (by omega), hk, hlow, hb, hd]
  simp

/-- A byte at an odd offset is the high byte of its word, and no word begins there. -/
theorem total_flip (hodd : field % 2 = 1) (hi : i % 2 = 0) :
    total d field n i = total b field n i + if i < field ∧ field < i + 2 * n then 256 else 0 := by
  induction n generalizing i with
  | zero => rw [total, total, if_neg (by omega)]
  | succ n ih =>
    have hout : ¬ (i = field ∨ i = field + 2) := by omega
    simp only [total, if_neg hout, ih (i := i + 2) (by omega)]
    by_cases hnext : i + 1 = field
    · have hlater : ¬ (i + 2 < field ∧ field < i + 2 + 2 * n) := by omega
      have hhere : i < field ∧ field < i + 2 * (n + 1) := by omega
      rw [wordAt_flip hother hb hd hnext, if_neg hlater, if_pos hhere]
      omega
    · have hsame : (i + 2 < field ∧ field < i + 2 + 2 * n) ↔
          (i < field ∧ field < i + 2 * (n + 1)) := by omega
      simp only [hsame]
      rw [wordAt_flip_of_ne hother (by omega) hnext, Nat.add_assoc]

theorem compute_ne_of_flip (hodd : field % 2 = 1) (hsize : d.size = b.size) :
    compute d field ≠ compute b field := by
  obtain ⟨hfits, -⟩ := getElem?_eq_some_iff.1 hb
  rw [compute_eq_around, compute_eq_around, hsize, total_flip hother hb hd hodd rfl,
    if_pos (by omega)]
  generalize total b field ((b.size + 1) / 2) 0 = sum
  -- both are below 2^16, and too close for a carry out of 32 bits to make them equal
  have hne := around_add_ne sum
  have hnew := around_le (sum + 256)
  have hold := around_le sum
  rw [Ne, ← UInt32.toNat_inj, UInt32.toNat_ofNat', UInt32.toNat_ofNat']
  omega

end Flip

end ImageTriage.Checksum
