import Mathlib.Algebra.BigOperators.Intervals
import ImageTriage.Proofs.Checksum.Sum

/-!
# The checksum in closed form

The checksum is a number that depends on the exact sum of the words alone (`compute_closed_form`).
Bringing the carries around takes multiples of 65535 away and never makes a sum zero, so of all sums
with the same rest only the ones that are zero themselves give zero; the others give a number from 1
to 65535. It does not matter when the carries are brought around: after each word, as the checksum
does, or over and over at the end (`foldCarries`).

The exact sum runs over the even offsets in the file. The loop counts words instead, and the two are
matched by the offset of each word.
-/

namespace ImageTriage.Checksum

variable {b : Bytes} {field i n sum : Nat}

/-- The exact sum of the words at even offsets, without those at `field` and `field + 2`. A byte
that is missing behind the last one counts as zero. -/
def exactSum (b : Bytes) (field : Nat) : Nat :=
  ∑ i ∈ Finset.range b.size with i % 2 = 0 ∧ i ≠ field ∧ i ≠ field + 2,
    ((b[i]?.getD 0).toNat + 256 * (b[i + 1]?.getD 0).toNat)

/-- Brings the carries around until there are none. -/
def foldCarries (sum : Nat) : Nat :=
  if sum < 65536 then sum else foldCarries (sum % 65536 + sum / 65536)
termination_by sum

/-! ## Carries -/

theorem around_of_lt (h : sum < 65536) : around sum = sum := by
  unfold around
  split <;> omega

/-- Bringing the carries around once changes nothing about where the sum ends. -/
theorem around_fold (h : 65536 ≤ sum) : around (sum % 65536 + sum / 65536) = around sum := by
  unfold around
  rw [if_neg (by omega), if_neg (by omega)]
  omega

theorem foldCarries_eq_around (sum : Nat) : foldCarries sum = around sum := by
  fun_induction foldCarries sum with
  | case1 sum hsmall => exact (around_of_lt hsmall).symm
  | case2 sum hlarge ih => rw [ih, around_fold (Nat.le_of_not_lt hlarge)]

/-! ## Words -/

theorem wordAt_eq (b : Bytes) (i : Nat) :
    wordAt b i = (b[i]?.getD 0).toNat + 256 * (b[i + 1]?.getD 0).toNat := by
  unfold wordAt
  split
  case h_1 low high hlow hhigh => rw [hlow, hhigh, Option.getD_some, Option.getD_some]
  case h_2 low hlow hhigh =>
    rw [hlow, hhigh]
    rfl
  case h_3 hlow =>
    have hnext : b[i + 1]? = none := by
      rw [getElem?_eq_none_iff] at hlow ⊢
      omega
    rw [hlow, hnext]
    rfl

/-- The loop over the words, as a sum. -/
theorem total_eq_sum : total b field n i =
    ∑ k ∈ Finset.range n, if i + 2 * k = field ∨ i + 2 * k = field + 2 then 0
      else wordAt b (i + 2 * k) := by
  induction n generalizing i with
  | zero => rfl
  | succ n ih =>
    have hplace : ∀ k, i + 2 + 2 * k = i + 2 * (k + 1) := by omega
    rw [total, ih, Finset.sum_range_succ', Nat.add_comm]
    simp only [hplace, Nat.mul_zero, Nat.add_zero]

/-- Each even offset in the file is that of one word. -/
theorem total_eq_exactSum (b : Bytes) (field : Nat) :
    total b field ((b.size + 1) / 2) 0 = exactSum b field := by
  have heven : exactSum b field = ∑ i ∈ Finset.range b.size with i % 2 = 0,
      if i = field ∨ i = field + 2 then 0 else wordAt b i := by
    rw [exactSum, ← Finset.filter_filter, Finset.sum_filter]
    refine Finset.sum_congr rfl fun i _ => ?_
    rw [wordAt_eq]
    split <;> split <;> omega
  rw [heven, total_eq_sum]
  refine Finset.sum_nbij' (2 * ·) (· / 2) ?_ ?_ ?_ ?_ ?_
  · intro k hk
    rw [Finset.mem_range] at hk
    rw [Finset.mem_filter, Finset.mem_range]
    omega
  · intro i hi
    rw [Finset.mem_filter, Finset.mem_range] at hi
    rw [Finset.mem_range]
    omega
  · intro k _
    omega
  · intro i hi
    rw [Finset.mem_filter] at hi
    omega
  · intro k _
    rw [Nat.zero_add]

/-- The checksum depends on the exact sum and the length alone. After any number of words the sum
has no more than 16 bits, and at the end it is what the exact sum gives when its carries are brought
around only then. -/
theorem compute_closed_form (b : Bytes) (field : Nat) :
    (compute b field).toNat = ((if exactSum b field = 0 then 0
        else 1 + (exactSum b field - 1) % 65535) + b.size) % 2 ^ 32 ∧
      (∀ words, sumFrom b field words 0 0 ≤ 65535) ∧
      sumFrom b field ((b.size + 1) / 2) 0 0 = foldCarries (exactSum b field) := by
  have hsum : ∀ words, sumFrom b field words 0 0 = around (total b field words 0) := by
    intro words
    rw [← around_zero, sumFrom_around, Nat.zero_add]
  refine ⟨?_, fun words => ?_, ?_⟩
  · rw [compute_eq_around, total_eq_exactSum, UInt32.toNat_ofNat', around]
  · rw [hsum]
    exact around_le _
  · rw [hsum, total_eq_exactSum, foldCarries_eq_around]

/-- A multiple of 65535 does not count as zero. -/
example : compute ⟨#[0xFF, 0xFF, 0xFF, 0xFF]⟩ 4 = 65535 + 4 := by decide

end ImageTriage.Checksum
