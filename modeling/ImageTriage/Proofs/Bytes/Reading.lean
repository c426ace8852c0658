import Mathlib.Algebra.Group.Nat.Defs
import ImageTriage.Header.Field
import ImageTriage.Text.Utf16

/-!
# When a reader answers

A reader of a fixed number of bytes answers exactly when the file is long enough for all of them,
and then with the number that `le` gives. In a part of a file (`extract`) it answers as it does in
the file, as long as it stays in the part.
-/

namespace ImageTriage

namespace Bytes

variable {b : Bytes} {i n : Nat}

/-- The number written little-endian in the `n` bytes from offset `i`; zero when the file is too
short for it. -/
def le (b : Bytes) (i n : Nat) : Nat := (b.leNat? i n).getD 0

theorem getElem?_eq_none_of_size_le (h : b.size ≤ i) : b[i]? = none :=
  getElem?_neg b i (by omega)

theorem exists_leNat? (h : i + n ≤ b.size) : ∃ v, b.leNat? i n = some v := by
  induction n generalizing i with
  | zero => exact ⟨0, rfl⟩
  | succ n ih =>
    obtain ⟨v, hv⟩ := ih (show i + 1 + n ≤ b.size by omega)
    have hlow : b[i]? = some b[i] := getElem?_pos b i (by omega)
    exact ⟨b[i].toNat + 256 * v, by simp [leNat?, hlow, hv]⟩

theorem leNat?_eq_some (h : i + n ≤ b.size) : b.leNat? i n = some (b.le i n) := by
  obtain ⟨v, hv⟩ := exists_leNat? h
  rw [le, hv, Option.getD_some]

theorem leNat?_eq_none (hn : 0 < n) (h : b.size < i + n) : b.leNat? i n = none := by
  induction n generalizing i with
  | zero => omega
  | succ n ih =>
    rcases Nat.lt_or_ge i b.size with hi | hi
    · have hrest : b.leNat? (i + 1) n = none := ih (by omega) (by omega)
      simp [leNat?, hrest]
    · simp [leNat?, getElem?_eq_none_of_size_le hi]

theorem u16?_eq_none (h : b.size < i + 2) : b.u16? i = none := by
  rw [u16?, leNat?_eq_none (by omega) h, Option.map_none]

theorem u32?_eq_none (h : b.size < i + 4) : b.u32? i = none := by
  rw [u32?, leNat?_eq_none (by omega) h, Option.map_none]

theorem fits_of_leNat? {v : Nat} (hn : 0 < n) (h : b.leNat? i n = some v) : i + n ≤ b.size := by
  rcases Nat.lt_or_ge b.size (i + n) with hshort | hfits
  · rw [leNat?_eq_none hn hshort] at h
    cases h
  · exact hfits

theorem fits_of_u32? {v : UInt32} (h : b.u32? i = some v) : i + 4 ≤ b.size := by
  obtain ⟨n, hn, -⟩ := Option.map_eq_some_iff.1 h
  exact fits_of_leNat? (by omega) hn

theorem fits_of_u64? {v : UInt64} (h : b.u64? i = some v) : i + 8 ≤ b.size := by
  obtain ⟨n, hn, -⟩ := Option.map_eq_some_iff.1 h
  exact fits_of_leNat? (by omega) hn

theorem le_lt (b : Bytes) (i n : Nat) : b.le i n < 2 ^ (8 * n) := by
  rw [← Nat.one_shiftLeft]
  rcases hv : b.leNat? i n with _ | v
  · rw [le, hv, Option.getD_none, Nat.one_shiftLeft]
    exact Nat.two_pow_pos _
  · rw [le, hv, Option.getD_some]
    exact leNat?_lt hv

theorem u8?_eq_some (h : i + 1 ≤ b.size) : b.u8? i = some b[i] :=
  getElem?_pos b i (by omega)

theorem u16?_eq_some (h : i + 2 ≤ b.size) : b.u16? i = some (UInt16.ofNat (b.le i 2)) := by
  rw [u16?, leNat?_eq_some h, Option.map_some]

theorem u32?_eq_some (h : i + 4 ≤ b.size) : b.u32? i = some (UInt32.ofNat (b.le i 4)) := by
  rw [u32?, leNat?_eq_some h, Option.map_some]

theorem u64?_eq_some (h : i + 8 ≤ b.size) : b.u64? i = some (UInt64.ofNat (b.le i 8)) := by
  rw [u64?, leNat?_eq_some h, Option.map_some]

theorem toNat_ofNat_le_two (b : Bytes) (i : Nat) : (UInt16.ofNat (b.le i 2)).toNat = b.le i 2 :=
  UInt16.toNat_ofNat_of_lt (b.le_lt i 2)

theorem toNat_ofNat_le_four (b : Bytes) (i : Nat) : (UInt32.ofNat (b.le i 4)).toNat = b.le i 4 :=
  UInt32.toNat_ofNat_of_lt (b.le_lt i 4)

theorem length_units_le (b : Bytes) (i n : Nat) : (b.units i n).length ≤ n := by
  induction n generalizing i with
  | zero => exact Nat.le_refl 0
  | succ n ih =>
    unfold units
    split
    · exact Nat.succ_le_succ (ih (i + 2))
    · exact Nat.zero_le _

theorem units_take {k : Nat} (hk : k ≤ n) : (b.units i n).take k = b.units i k := by
  induction n generalizing i k with
  | zero =>
    rw [Nat.le_zero.1 hk]
    rfl
  | succ n ih =>
    cases k with
    | zero => rfl
    | succ k =>
      unfold units
      split
      · rw [List.take_succ_cons, ih (by omega)]
      · rfl

theorem getElem?_units {k : Nat} (hk : k < n) (hfits : i + 2 * k + 2 ≤ b.size) :
    (b.units i n)[k]? = b.u16? (i + 2 * k) := by
  induction n generalizing i k with
  | zero => omega
  | succ n ih =>
    rw [units, u16?_eq_some (by omega)]
    cases k with
    | zero => rw [List.getElem?_cons_zero, Nat.mul_zero, Nat.add_zero, u16?_eq_some (by omega)]
    | succ k =>
      have hplace : i + 2 + 2 * k = i + 2 * (k + 1) := by omega
      rw [List.getElem?_cons_succ, ih (by omega) (by omega), hplace]

/-! ## A part of a file -/

section Part

variable {j k : Nat} (hj : j ≤ b.size)
include hj

theorem getElem?_extract (hk : i + k < j) : (b.extract i j)[k]? = b[i + k]? := by
  have hin : k < (b.extract i j).size := by
    rw [ByteArray.size_extract]
    omega
  rw [getElem?_pos _ k hin, getElem?_pos b (i + k) (by omega), ByteArray.getElem_extract]

theorem leNat?_extract (hk : i + k + n ≤ j) : leNat? (b.extract i j) k n = b.leNat? (i + k) n := by
  induction n generalizing k with
  | zero => rfl
  | succ n ih =>
    simp only [leNat?, getElem?_extract hj (show i + k < j by omega), ih (k := k + 1) (by omega),
      Nat.add_assoc]

theorem u16?_extract (hk : i + k + 2 ≤ j) : u16? (b.extract i j) k = b.u16? (i + k) := by
  rw [u16?, leNat?_extract hj hk, u16?]

theorem u32?_extract (hk : i + k + 4 ≤ j) : u32? (b.extract i j) k = b.u32? (i + k) := by
  rw [u32?, leNat?_extract hj hk, u32?]

theorem units_extract (hk : i + k + 2 * n ≤ j) : units (b.extract i j) k n = b.units (i + k) n := by
  induction n generalizing k with
  | zero => rfl
  | succ n ih =>
    simp only [units, u16?_extract hj (show i + k + 2 ≤ j by omega), ih (k := k + 2) (by omega),
      Nat.add_assoc]

theorem zeroFree_extract (hk : i + k + n ≤ j) :
    zeroFree (b.extract i j) k n = b.zeroFree (i + k) n := by
  induction n generalizing k with
  | zero => rfl
  | succ n ih =>
    simp only [zeroFree, getElem?_extract hj (show i + k < j by omega), ih (k := k + 1) (by omega),
      Nat.add_assoc]

end Part

theorem slice?_eq_some (h : i + n ≤ b.size) : b.slice? i n = some (b.extract i (i + n)) := by
  rw [slice?, if_pos h]

end Bytes

namespace Header

variable {b : Bytes} {i : Nat}

theorem u8_eq_ok (h : i + 1 ≤ b.size) : u8 b i = .ok b[i] := by
  rw [u8, Bytes.u8?_eq_some h, orFault_some]

theorem u16_eq_ok (h : i + 2 ≤ b.size) : u16 b i = .ok (UInt16.ofNat (b.le i 2)) := by
  rw [u16, Bytes.u16?_eq_some h, orFault_some]

theorem u32_eq_ok (h : i + 4 ≤ b.size) : u32 b i = .ok (UInt32.ofNat (b.le i 4)) := by
  rw [u32, Bytes.u32?_eq_some h, orFault_some]

theorem u64_eq_ok (h : i + 8 ≤ b.size) : u64 b i = .ok (UInt64.ofNat (b.le i 8)) := by
  rw [u64, Bytes.u64?_eq_some h, orFault_some]

end Header

end ImageTriage
