import ImageTriage.Header.Directory
import ImageTriage.Header.Field
import ImageTriage.Proofs.Bytes.Layout

/-!
# Overwriting a part of a file

`b.overwrite i xs` is the file with the bytes `xs` from offset `i` on. A reader that keeps clear of
them finds what it found before. Those of a header are collected here, for use with an arithmetic
discharger that shows that a field keeps clear.
-/

namespace ImageTriage

namespace Bytes

/-- The file with other bytes from offset `i` on. -/
def overwrite (b : Bytes) (i : Nat) (xs : List UInt8) : Bytes :=
  b.extract 0 i ++ xs.toByteArray ++ b.extract (i + xs.length) b.size

variable {b : Bytes} {i k n : Nat} {xs : List UInt8} (h : i + xs.length ≤ b.size)
include h

theorem size_overwrite : (b.overwrite i xs).size = b.size := by
  simp only [overwrite, ByteArray.size_append, ByteArray.size_extract, List.size_toByteArray]
  omega

omit h in
theorem list_overwrite :
    list (b.overwrite i xs) = b.list.take i ++ xs ++ b.list.drop (i + xs.length) := by
  have hwhole : b.list.extract (i + xs.length) b.size = b.list.drop (i + xs.length) := by
    rw [List.extract_eq_take_drop, List.take_of_length_le]
    rw [List.length_drop]
    exact Nat.le_refl _
  rw [← hwhole]
  simp [overwrite, list]

theorem holds_overwrite : Holds (b.overwrite i xs) i xs := by
  have hsize : b.list.length = b.size := rfl
  rw [holds_iff_getElem?]
  intro k hk
  have htake : (b.list.take i).length = i := by
    rw [List.length_take]
    omega
  rw [getElem?_eq_list, list_overwrite, List.append_assoc,
    List.getElem?_append_right (by omega), htake, List.getElem?_append_left (by omega)]
  congr 1
  omega

theorem getElem?_overwrite (hk : k < i ∨ i + xs.length ≤ k) : (b.overwrite i xs)[k]? = b[k]? := by
  have hsize : b.list.length = b.size := rfl
  have htake : (b.list.take i).length = i := by
    rw [List.length_take]
    omega
  rw [getElem?_eq_list, list_overwrite, List.append_assoc, getElem?_eq_list]
  rcases hk with hk | hk
  · rw [List.getElem?_append_left (by omega), List.getElem?_take_of_lt hk]
  · rw [List.getElem?_append_right (by omega), htake, List.getElem?_append_right (by omega),
      List.getElem?_drop]
    congr 1
    omega

theorem leNat?_overwrite (hk : k + n ≤ i ∨ i + xs.length ≤ k) :
    (b.overwrite i xs).leNat? k n = b.leNat? k n := by
  induction n generalizing k with
  | zero => rfl
  | succ n ih =>
    simp only [leNat?, getElem?_overwrite h (show k < i ∨ i + xs.length ≤ k by omega),
      ih (k := k + 1) (by omega)]

theorem u32?_overwrite (hk : k + 4 ≤ i ∨ i + xs.length ≤ k) :
    (b.overwrite i xs).u32? k = b.u32? k := by
  rw [u32?, leNat?_overwrite h hk, u32?]

theorem extract_overwrite (hk : k + n ≤ i ∨ i + xs.length ≤ k) :
    (b.overwrite i xs).extract k (k + n) = b.extract k (k + n) := by
  refine ByteArray.ext_getElem ?_ fun j hj hj' => ?_
  · rw [ByteArray.size_extract, ByteArray.size_extract, size_overwrite h]
  · have hlt := hj'
    rw [ByteArray.size_extract] at hlt
    have hbyte := getElem?_overwrite h (show k + j < i ∨ i + xs.length ≤ k + j by omega)
    rw [getElem?_pos _ (k + j) (by rw [size_overwrite h]; omega),
      getElem?_pos b (k + j) (by omega), Option.some.injEq] at hbyte
    rw [ByteArray.getElem_extract, ByteArray.getElem_extract, hbyte]

theorem slice?_overwrite (hk : k + n ≤ i ∨ i + xs.length ≤ k) :
    (b.overwrite i xs).slice? k n = b.slice? k n := by
  rw [slice?, slice?, size_overwrite h, extract_overwrite h hk]

end Bytes

namespace Header

variable {b : Bytes} {i k : Nat} {xs : List UInt8} (h : i + xs.length ≤ b.size)
include h

theorem u8_overwrite (hk : k + 1 ≤ i ∨ i + xs.length ≤ k) :
    u8 (b.overwrite i xs) k = u8 b k := by
  rw [u8, Bytes.u8?, Bytes.getElem?_overwrite h (by omega), Bytes.size_overwrite h, u8, Bytes.u8?]

theorem u16_overwrite (hk : k + 2 ≤ i ∨ i + xs.length ≤ k) :
    u16 (b.overwrite i xs) k = u16 b k := by
  rw [u16, Bytes.u16?, Bytes.leNat?_overwrite h hk, Bytes.size_overwrite h, u16, Bytes.u16?]

theorem u32_overwrite (hk : k + 4 ≤ i ∨ i + xs.length ≤ k) :
    u32 (b.overwrite i xs) k = u32 b k := by
  rw [u32, Bytes.u32?, Bytes.leNat?_overwrite h hk, Bytes.size_overwrite h, u32, Bytes.u32?]

theorem u64_overwrite (hk : k + 8 ≤ i ∨ i + xs.length ≤ k) :
    u64 (b.overwrite i xs) k = u64 b k := by
  rw [u64, Bytes.u64?, Bytes.leNat?_overwrite h hk, Bytes.size_overwrite h, u64, Bytes.u64?]

end Header

end ImageTriage
