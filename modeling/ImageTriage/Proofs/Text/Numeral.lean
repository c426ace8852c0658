import Mathlib.Algebra.Group.Nat.Defs
import ImageTriage.Bytes.Basic
import ImageTriage.Text.Numeral

/-!
# Hexadecimal numerals of a fixed width

A number that needs no more than `width` digits is written with exactly that many (`digitsUpper`).
So the numeral of a word is the text of its bytes, the highest byte first
(`hexUpper_eq_hexOfBytesUpper`), and what is said of the text of bytes holds of both: the text
determines the bytes (`hexOfBytesUpper_append_inj`).
-/

namespace ImageTriage.Text

/-- The last `width` upper-case digits of a number, leading zeros among them. -/
def digitsUpper : Nat → Nat → List Char
  | 0, _ => []
  | width + 1, n => digitsUpper width (n / 16) ++ [hexDigitUpper (n % 16)]

theorem digitsUpper_zero (width : Nat) : digitsUpper width 0 = List.replicate width '0' := by
  induction width with
  | zero => rfl
  | succ width ih =>
    rw [digitsUpper, Nat.zero_div, ih, List.replicate_succ']
    rfl

theorem toUpper_digitChar {n : Nat} (h : n < 16) :
    (Nat.digitChar n).toUpper = hexDigitUpper n := by
  have hall : ∀ k < 16, (Nat.digitChar k).toUpper = hexDigitUpper k := by decide
  exact hall n h

/-- Leading zeros fill a numeral up to its width. -/
theorem replicate_append_toDigits {width n : Nat} (hwidth : 0 < width) (h : n < 16 ^ width) :
    List.replicate (width - (Nat.toDigits 16 n).length) '0' ++
      (Nat.toDigits 16 n).map Char.toUpper = digitsUpper width n := by
  induction width generalizing n with
  | zero => omega
  | succ width ih =>
    rcases Nat.lt_or_ge n 16 with hsmall | hlarge
    · have hhigh : n / 16 = 0 := by omega
      rw [Nat.toDigits_of_lt_base hsmall, digitsUpper, hhigh, digitsUpper_zero,
        Nat.mod_eq_of_lt hsmall, List.map_singleton, toUpper_digitChar hsmall]
      rfl
    · rw [Nat.pow_succ] at h
      have hhigh : n / 16 < 16 ^ width := by omega
      have hpos : 0 < width := by
        rcases Nat.eq_zero_or_pos width with rfl | hpos
        · omega
        · exact hpos
      have hrest := ih hpos hhigh
      have hcount : width + 1 - ((Nat.toDigits 16 (n / 16)).length + 1) =
          width - (Nat.toDigits 16 (n / 16)).length := by omega
      rw [Nat.toDigits_of_base_le (by decide) hlarge, List.length_append, List.length_singleton,
        List.map_append, List.map_singleton, toUpper_digitChar (Nat.mod_lt n (by decide)),
        ← List.append_assoc, hcount, hrest, digitsUpper]

theorem hexUpper_eq {width n : Nat} (hwidth : 0 < width) (h : n < 16 ^ width) :
    hexUpper width n = String.ofList (digitsUpper width n) := by
  rw [hexUpper, padLeft, String.length_ofList, List.length_map, ← String.ofList_append,
    replicate_append_toDigits hwidth h]

/-! ## The text of bytes -/

/-- The two digits of a byte. -/
def byteDigits (x : UInt8) : List Char :=
  [hexDigitUpper (x.toNat / 16), hexDigitUpper (x.toNat % 16)]

theorem hexOfBytesUpper_eq (xs : List UInt8) :
    hexOfBytesUpper xs = String.ofList (xs.flatMap byteDigits) := rfl

theorem hexDigitUpper_inj {m n : Nat} (hm : m < 16) (hn : n < 16)
    (h : hexDigitUpper m = hexDigitUpper n) : m = n := by
  have hall : ∀ j < 16, ∀ k < 16, hexDigitUpper j = hexDigitUpper k → j = k := by decide
  exact hall m hm n hn h

theorem byteDigits_inj {x y : UInt8} (h : byteDigits x = byteDigits y) : x = y := by
  have hx := x.toNat_lt
  have hy := y.toNat_lt
  obtain ⟨hhigh, hlow⟩ : hexDigitUpper (x.toNat / 16) = hexDigitUpper (y.toNat / 16) ∧
      hexDigitUpper (x.toNat % 16) = hexDigitUpper (y.toNat % 16) := by
    simpa [byteDigits] using h
  have hhigh := hexDigitUpper_inj (by omega) (by omega) hhigh
  have hlow := hexDigitUpper_inj (by omega) (by omega) hlow
  exact UInt8.toNat_inj.1 (by omega)

/-- The digits of as many bytes, before anything else, determine the bytes. -/
theorem flatMap_byteDigits_inj {xs ys : List UInt8} {cs ds : List Char}
    (hlength : xs.length = ys.length)
    (h : xs.flatMap byteDigits ++ cs = ys.flatMap byteDigits ++ ds) : xs = ys ∧ cs = ds := by
  induction xs generalizing ys with
  | nil =>
    obtain rfl := List.eq_nil_of_length_eq_zero hlength.symm
    exact ⟨rfl, h⟩
  | cons x xs ih =>
    cases ys with
    | nil => cases hlength
    | cons y ys =>
      rw [List.flatMap_cons, List.flatMap_cons, List.append_assoc, List.append_assoc] at h
      obtain ⟨hbyte, hrest⟩ := List.append_inj h rfl
      obtain ⟨rfl, rfl⟩ := ih (Nat.succ.inj hlength) hrest
      exact ⟨by rw [byteDigits_inj hbyte], rfl⟩

theorem hexOfBytesUpper_append_inj {xs ys : List UInt8} {s t : String}
    (hlength : xs.length = ys.length) (h : hexOfBytesUpper xs ++ s = hexOfBytesUpper ys ++ t) :
    xs = ys ∧ s = t := by
  have hlists := congrArg String.toList h
  rw [String.toList_append, String.toList_append, hexOfBytesUpper_eq, hexOfBytesUpper_eq,
    String.toList_ofList, String.toList_ofList] at hlists
  obtain ⟨hbytes, hrest⟩ := flatMap_byteDigits_inj hlength hlists
  exact ⟨hbytes, String.toList_inj.1 hrest⟩

/-! ## Words -/

theorem flatMap_byteDigits_beBytes (k v : Nat) :
    (Bytes.beBytes k v).flatMap byteDigits = digitsUpper (2 * k) v := by
  induction k generalizing v with
  | zero => rfl
  | succ k ih =>
    have hlow : (UInt8.ofNat (v % 256)).toNat = v % 256 :=
      UInt8.toNat_ofNat_of_lt (Nat.mod_lt v (by decide))
    have hdigit : v % 256 / 16 = v / 16 % 16 := by omega
    have hlast : v % 256 % 16 = v % 16 := by omega
    have hhigh : v / 16 / 16 = v / 256 := by omega
    have hrest : (Bytes.leBytes k (v / 256)).reverse = Bytes.beBytes k (v / 256) := rfl
    rw [Bytes.beBytes, Bytes.leBytes, List.reverse_cons, hrest, List.flatMap_append, ih,
      Nat.mul_succ, digitsUpper, digitsUpper, hhigh, List.append_assoc, List.flatMap_singleton,
      byteDigits, hlow, hdigit, hlast]
    rfl

/-- The numeral of a word is the text of its bytes, the highest byte first. -/
theorem hexUpper_eq_hexOfBytesUpper {k v : Nat} (hk : 0 < k) (h : v < 2 ^ (8 * k)) :
    hexUpper (2 * k) v = hexOfBytesUpper (Bytes.beBytes k v) := by
  have hdigits : 2 ^ (8 * k) = 16 ^ (2 * k) := by
    rw [show 8 * k = 4 * (2 * k) by omega, Nat.pow_mul]
  rw [hexUpper_eq (by omega) (hdigits ▸ h), hexOfBytesUpper_eq, flatMap_byteDigits_beBytes]

end ImageTriage.Text
