import Mathlib.Data.Nat.Bitwise
import ImageTriage.Proofs.Bytes.Reading

/-!
# What stands in a file

`b.Holds i xs` says that the bytes `xs` stand in the file at offset `i`. A layout is written as one
list of bytes, parts after parts. Where the whole stands each part stands (`holds_append`), and a
reader sent to a part finds what was written there.
-/

namespace ImageTriage

namespace Bytes

variable {b : Bytes} {i n : Nat} {x : UInt8} {xs ys : List UInt8}

theorem getElem?_eq_list (b : Bytes) (i : Nat) : b[i]? = b.list[i]? := by
  by_cases h : i < b.size
  · have hlist : i < b.list.length := h
    rw [getElem?_pos b i h, getElem?_pos b.list i hlist]
    rfl
  · have hlist : ¬ i < b.list.length := h
    rw [getElem?_neg b i h, getElem?_neg b.list i hlist]

@[simp] theorem list_toByteArray (xs : List UInt8) : list xs.toByteArray = xs := by
  simp [list]

theorem eq_of_list_eq {c : Bytes} (h : list b = list c) : b = c :=
  ByteArray.ext (Array.toList_inj.1 h)

theorem getElem?_toByteArray (xs : List UInt8) (i : Nat) : xs.toByteArray[i]? = xs[i]? := by
  rw [getElem?_eq_list, list_toByteArray]

/-- The bytes stand in the file at offset `i`. -/
def Holds (b : Bytes) : Nat → List UInt8 → Prop
  | _, [] => True
  | i, x :: xs => b[i]? = some x ∧ Holds b (i + 1) xs

instance decidableHolds (b : Bytes) : (i : Nat) → (xs : List UInt8) → Decidable (b.Holds i xs)
  | _, [] => isTrue trivial
  | i, x :: xs =>
    have := decidableHolds b (i + 1) xs
    inferInstanceAs (Decidable (b[i]? = some x ∧ b.Holds (i + 1) xs))

@[simp] theorem holds_nil : b.Holds i [] := trivial

@[simp] theorem holds_cons : b.Holds i (x :: xs) ↔ b[i]? = some x ∧ b.Holds (i + 1) xs := Iff.rfl

theorem holds_append : b.Holds i (xs ++ ys) ↔ b.Holds i xs ∧ b.Holds (i + xs.length) ys := by
  induction xs generalizing i with
  | nil => simp
  | cons x xs ih =>
    have hplace : i + 1 + xs.length = i + (x :: xs).length := by
      rw [List.length_cons]
      omega
    rw [List.cons_append, holds_cons, holds_cons, ih, hplace, and_assoc]

theorem Holds.left (h : b.Holds i (xs ++ ys)) : b.Holds i xs := (holds_append.1 h).1

theorem Holds.right (h : b.Holds i (xs ++ ys)) : b.Holds (i + xs.length) ys := (holds_append.1 h).2

theorem holds_iff_getElem? : b.Holds i xs ↔ ∀ k < xs.length, b[i + k]? = xs[k]? := by
  induction xs generalizing i with
  | nil => simp
  | cons x xs ih =>
    rw [holds_cons, ih]
    constructor
    · rintro ⟨hx, hxs⟩ k hk
      cases k with
      | zero => exact hx
      | succ k =>
        have hk := hxs k (by simpa using hk)
        rw [List.getElem?_cons_succ, ← hk]
        congr 1
        omega
    · intro h
      refine ⟨h 0 (by simp), fun k hk => ?_⟩
      have hk := h (k + 1) (by simpa using hk)
      rw [List.getElem?_cons_succ] at hk
      rw [← hk]
      congr 1
      omega

theorem Holds.fits (h : b.Holds i xs) (hi : i ≤ b.size) : i + xs.length ≤ b.size := by
  induction xs generalizing i with
  | nil => exact hi
  | cons x xs ih =>
    obtain ⟨hx, hxs⟩ := h
    obtain ⟨hlt, -⟩ := getElem?_eq_some_iff.1 hx
    have := ih hxs hlt
    rw [List.length_cons]
    omega

theorem Holds.fits_of_ne_nil (h : b.Holds i xs) (hne : xs ≠ []) : i + xs.length ≤ b.size := by
  cases xs with
  | nil => contradiction
  | cons x xs =>
    obtain ⟨hlt, -⟩ := getElem?_eq_some_iff.1 h.1
    exact h.fits (Nat.le_of_lt hlt)

theorem holds_toByteArray (xs : List UInt8) : Holds xs.toByteArray 0 xs := by
  rw [holds_iff_getElem?]
  intro k _
  rw [Nat.zero_add, getElem?_toByteArray]

theorem holds_between (front xs back : List UInt8) :
    Holds (front ++ xs ++ back).toByteArray front.length xs := by
  have h := (holds_toByteArray (front ++ xs ++ back)).left.right
  rwa [Nat.zero_add] at h

/-- What is cut out where the bytes stand. -/
theorem Holds.extract (h : b.Holds i xs) (hi : i ≤ b.size) :
    b.extract i (i + xs.length) = xs.toByteArray := by
  have hfits := h.fits hi
  refine ByteArray.ext_getElem ?_ fun k hk hk' => ?_
  · rw [ByteArray.size_extract, List.size_toByteArray]
    omega
  · rw [List.size_toByteArray] at hk'
    have hbyte := holds_iff_getElem?.1 h k hk'
    rw [getElem?_pos b (i + k) (by omega), List.getElem?_eq_getElem hk', Option.some.injEq] at hbyte
    rw [ByteArray.getElem_extract, hbyte, List.getElem_toByteArray]

/-! ## Cuts -/

theorem length_list_extract (b : Bytes) (i j : Nat) :
    (list (b.extract i j)).length = min j b.size - i :=
  ByteArray.size_extract

theorem holds_list_extract (b : Bytes) (i j : Nat) : b.Holds i (list (b.extract i j)) := by
  rw [holds_iff_getElem?]
  intro k hk
  rw [length_list_extract] at hk
  rw [← getElem?_eq_list, getElem?_pos b (i + k) (by omega),
    getElem?_pos _ k (by rw [ByteArray.size_extract]; omega), ByteArray.getElem_extract]

theorem Holds.list_extract (h : b.Holds i xs) (hi : i ≤ b.size) :
    list (b.extract i (i + xs.length)) = xs := by
  rw [h.extract hi, list_toByteArray]

theorem list_extract_append {j k : Nat} (hik : i ≤ k) (hkj : k ≤ j) :
    list (b.extract i j) = list (b.extract i k) ++ list (b.extract k j) := by
  rw [ByteArray.extract_eq_extract_append_extract k hik hkj, list, ByteArray.data_append,
    Array.toList_append]

/-- What a cut begins with stands in the file, and the cut goes on behind it. -/
theorem holds_of_list_extract {j : Nat} (hij : i ≤ j) (hj : j ≤ b.size)
    (h : list (b.extract i j) = xs ++ ys) :
    b.Holds i xs ∧ i + xs.length ≤ j ∧ list (b.extract (i + xs.length) j) = ys := by
  have hholds : b.Holds i (xs ++ ys) := h ▸ holds_list_extract b i j
  have hlength := congrArg List.length h
  rw [length_list_extract, List.length_append] at hlength
  have hfits : i + xs.length ≤ j := by omega
  have hsplit : list (b.extract i j) = xs ++ list (b.extract (i + xs.length) j) := by
    rw [list_extract_append (Nat.le_add_right _ _) hfits, hholds.left.list_extract (by omega)]
  exact ⟨hholds.left, hfits, List.append_cancel_left (hsplit.symm.trans h)⟩

/-! ## Parts -/

theorem length_parts {α : Type} {f : α → List UInt8} (hf : ∀ a, (f a).length = n) (as : List α) :
    (as.flatMap f).length = n * as.length := by
  induction as with
  | nil => rfl
  | cons a as ih =>
    rw [List.flatMap_cons, List.length_append, ih, hf, List.length_cons, Nat.mul_succ, Nat.add_comm]

/-- One of several parts of the same length. -/
theorem Holds.part {α : Type} {f : α → List UInt8} (hf : ∀ a, (f a).length = n) {as : List α}
    (h : b.Holds i (as.flatMap f)) {k : Nat} (hk : k < as.length) :
    b.Holds (i + n * k) (f as[k]) := by
  induction as generalizing i k with
  | nil => contradiction
  | cons a as ih =>
    rw [List.flatMap_cons] at h
    cases k with
    | zero => exact h.left
    | succ k =>
      have hrest := ih h.right (Nat.lt_of_succ_lt_succ hk)
      rwa [hf, Nat.add_assoc, Nat.add_comm n, ← Nat.mul_succ] at hrest

theorem Holds.isZero_iff (h : b.Holds i xs) : b.isZero i xs.length ↔ ∀ x ∈ xs, x = 0 := by
  induction xs generalizing i with
  | nil => simp [isZero]
  | cons x xs ih =>
    obtain ⟨hx, hxs⟩ := h
    simp [isZero, hx, ih hxs]

theorem holds_of_isZero (h : b.isZero i n) : b.Holds i (List.replicate n 0) := by
  induction n generalizing i with
  | zero => trivial
  | succ n ih =>
    rw [isZero, Bool.and_eq_true, beq_iff_eq] at h
    exact ⟨h.1, ih h.2⟩

/-! ## Numbers -/

theorem Holds.leNat? {v : Nat} (h : b.Holds i (leBytes n v)) (hv : v < 1 <<< (8 * n)) :
    b.leNat? i n = some v := by
  induction n generalizing i v with
  | zero =>
    have hzero : v = 0 := by simpa using hv
    rw [hzero]
    rfl
  | succ n ih =>
    obtain ⟨hlow, hhigh⟩ := h
    rw [Nat.mul_succ, Nat.shiftLeft_add, Nat.shiftLeft_eq _ 8] at hv
    have hrest := ih hhigh (by omega)
    have hbyte : (UInt8.ofNat (v % 256)).toNat = v % 256 :=
      UInt8.toNat_ofNat_of_lt (Nat.mod_lt _ (by decide))
    simp only [Bytes.leNat?, hlow, hrest, Option.bind_eq_bind, Option.bind_some, Option.pure_def,
      hbyte, Option.some.injEq]
    omega

theorem holds_of_leNat? {v : Nat} (h : b.leNat? i n = some v) : b.Holds i (leBytes n v) := by
  induction n generalizing i v with
  | zero => trivial
  | succ n ih =>
    simp only [Bytes.leNat?, Option.bind_eq_bind, Option.bind_eq_some_iff, Option.pure_def,
      Option.some.injEq] at h
    obtain ⟨low, hlow, high, hhigh, rfl⟩ := h
    have hlt := low.toNat_lt
    have hbyte : (low.toNat + 256 * high) % 256 = low.toNat := by omega
    have hrest : (low.toNat + 256 * high) / 256 = high := by omega
    rw [leBytes, hbyte, hrest, UInt8.ofNat_toNat]
    exact ⟨hlow, ih hhigh⟩

theorem holds_of_u16? {v : UInt16} (h : b.u16? i = some v) : b.Holds i (leBytes 2 v.toNat) := by
  obtain ⟨n, hn, rfl⟩ := Option.map_eq_some_iff.1 h
  have hword : (UInt16.ofNat n).toNat = n := UInt16.toNat_ofNat_of_lt (leNat?_lt hn)
  rw [hword]
  exact holds_of_leNat? hn

theorem holds_of_u32? {v : UInt32} (h : b.u32? i = some v) : b.Holds i (leBytes 4 v.toNat) := by
  obtain ⟨n, hn, rfl⟩ := Option.map_eq_some_iff.1 h
  have hword : (UInt32.ofNat n).toNat = n := UInt32.toNat_ofNat_of_lt (leNat?_lt hn)
  rw [hword]
  exact holds_of_leNat? hn

theorem Holds.u16? {v : UInt16} (h : b.Holds i (leBytes 2 v.toNat)) : b.u16? i = some v := by
  rw [Bytes.u16?, h.leNat? v.toNat_lt, Option.map_some, UInt16.ofNat_toNat]

theorem Holds.u32? {v : UInt32} (h : b.Holds i (leBytes 4 v.toNat)) : b.u32? i = some v := by
  rw [Bytes.u32?, h.leNat? v.toNat_lt, Option.map_some, UInt32.ofNat_toNat]

theorem Holds.u64? {v : UInt64} (h : b.Holds i (leBytes 8 v.toNat)) : b.u64? i = some v := by
  rw [Bytes.u64?, h.leNat? v.toNat_lt, Option.map_some, UInt64.ofNat_toNat]

theorem u32?_of_isZero {k : Nat} (h : b.isZero i n) (hk : k + 4 ≤ n) :
    b.u32? (i + k) = some 0 := by
  obtain ⟨rest, rfl⟩ := Nat.exists_eq_add_of_le hk
  have hzeros := holds_of_isZero h
  rw [Nat.add_assoc, ← List.replicate_append_replicate,
    ← List.replicate_append_replicate] at hzeros
  have hword := hzeros.right.left
  rw [List.length_replicate] at hword
  exact hword.u32? (v := 0)

/-- One of several words. -/
theorem Holds.u32?_word {words : List UInt32} (h : b.Holds i (words.flatMap (leBytes 4 ·.toNat)))
    {k : Nat} (hk : k < words.length) : b.u32? (i + 4 * k) = words[k]? := by
  rw [List.getElem?_eq_getElem hk]
  exact (h.part (fun _ => length_leBytes 4 _) hk).u32?

/-! ## Numbers with a mark

A number below a power of two can have that power added to it as a mark. -/

section Mark

variable {k : Nat} (h : n < 2 ^ k)
include h

theorem and_two_pow_of_lt : n &&& 2 ^ k = 0 := by
  rw [Nat.and_two_pow, Nat.testBit_lt_two_pow h, Bool.toNat_false, Nat.zero_mul]

theorem add_two_pow_and_two_pow : (n + 2 ^ k) &&& 2 ^ k = 2 ^ k := by
  rw [Nat.and_two_pow, Nat.add_comm, Nat.testBit_two_pow_add_eq, Nat.testBit_lt_two_pow h,
    Bool.not_false, Bool.toNat_true, Nat.one_mul]

theorem add_two_pow_and_two_pow_sub_one : (n + 2 ^ k) &&& (2 ^ k - 1) = n := by
  rw [Nat.and_two_pow_sub_one_eq_mod, Nat.add_mod_right, Nat.mod_eq_of_lt h]

end Mark

/-! ## UTF-16 units -/

/-- Units, written little-endian. -/
def unitBytes (us : List UInt16) : List UInt8 := us.flatMap fun u => leBytes 2 u.toNat

theorem unitBytes_cons (u : UInt16) (us : List UInt16) :
    unitBytes (u :: us) = leBytes 2 u.toNat ++ unitBytes us := List.flatMap_cons

@[simp] theorem length_unitBytes (us : List UInt16) : (unitBytes us).length = 2 * us.length :=
  length_parts (fun _ => length_leBytes 2 _) us

theorem Holds.units {us : List UInt16} (h : b.Holds i (unitBytes us)) :
    b.units i us.length = us := by
  induction us generalizing i with
  | nil => rfl
  | cons u us ih =>
    rw [unitBytes_cons] at h
    have hrest := h.right
    rw [length_leBytes] at hrest
    simp only [List.length_cons, Bytes.units, h.left.u16?, ih hrest]

/-- Where there are more units to read, those that stand there come first. -/
theorem Holds.units_prefix {us : List UInt16} (h : b.Holds i (unitBytes us)) (n : Nat) :
    b.units i (us.length + n) = us ++ b.units (i + 2 * us.length) n := by
  induction us generalizing i with
  | nil => simp
  | cons u us ih =>
    rw [unitBytes_cons] at h
    have hrest := h.right
    rw [length_leBytes] at hrest
    have hplace : i + 2 + 2 * us.length = i + 2 * (us.length + 1) := by omega
    have hcount : us.length + 1 + n = us.length + n + 1 := by omega
    rw [List.length_cons, hcount, Bytes.units, h.left.u16?]
    simp only [ih hrest, List.cons_append, hplace]

end Bytes

end ImageTriage
