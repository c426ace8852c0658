/-!
# Bytes of a file

A file is an array of bytes, read at offsets that the file itself supplies. Every reader here is
total: it answers `none` where the array is too short, and no offset is too large to ask about.

* `leNat?` reads a little-endian number of any width; `u8?`, `u16?`, `u32?`, `u64?` are its
  fixed-width forms.
* `slice?` cuts out a run of bytes.
* `leBytes` writes a number little-endian.
* `beNat?` and `beBytes` are the same with the bytes the other way round.
-/

namespace ImageTriage

/-- The contents of a file, or a part of them. -/
abbrev Bytes := ByteArray

namespace Bytes

instance : DecidableEq Bytes := fun a b =>
  decidable_of_iff (a.data = b.data) ⟨ByteArray.ext, congrArg ByteArray.data⟩

/-- The bytes as a list. -/
abbrev list (b : Bytes) : List UInt8 := b.data.toList

/-- The number written little-endian in the `n` bytes from offset `i`. -/
def leNat? (b : Bytes) (i : Nat) : Nat → Option Nat
  | 0 => some 0
  | n + 1 => do
    let low ← b[i]?
    let high ← leNat? b (i + 1) n
    return low.toNat + 256 * high

/-- The byte at offset `i`. -/
def u8? (b : Bytes) (i : Nat) : Option UInt8 := b[i]?

/-- The 16-bit word at offset `i`. -/
def u16? (b : Bytes) (i : Nat) : Option UInt16 := (b.leNat? i 2).map UInt16.ofNat

/-- The 32-bit word at offset `i`. -/
def u32? (b : Bytes) (i : Nat) : Option UInt32 := (b.leNat? i 4).map UInt32.ofNat

/-- The 64-bit word at offset `i`. -/
def u64? (b : Bytes) (i : Nat) : Option UInt64 := (b.leNat? i 8).map UInt64.ofNat

/-- The `n` bytes from offset `i`. -/
def slice? (b : Bytes) (i n : Nat) : Option Bytes :=
  if i + n ≤ b.size then some (b.extract i (i + n)) else none

/-- How many of the next `n` bytes from offset `i` come before the first zero byte. -/
def zeroFree (b : Bytes) (i : Nat) : Nat → Nat
  | 0 => 0
  | n + 1 =>
    match b[i]? with
    | some c => if c = 0 then 0 else zeroFree b (i + 1) n + 1
    | none => 0

/-- Whether the `n` bytes from offset `i` are all there and all zero. -/
def isZero (b : Bytes) (i : Nat) : Nat → Bool
  | 0 => true
  | n + 1 => b[i]? == some 0 && isZero b (i + 1) n

/-- The `n` little-endian bytes of a number; what does not fit is dropped. -/
def leBytes : Nat → Nat → List UInt8
  | 0, _ => []
  | n + 1, v => UInt8.ofNat (v % 256) :: leBytes n (v / 256)

/-- The number written big-endian in the `n` bytes from offset `i`. -/
def beNat? (b : Bytes) (i : Nat) : Nat → Option Nat
  | 0 => some 0
  | n + 1 => do
    let high ← beNat? b i n
    let low ← b[i + n]?
    return 256 * high + low.toNat

/-- The `n` big-endian bytes of a number; what does not fit is dropped. -/
def beBytes (n v : Nat) : List UInt8 := (leBytes n v).reverse

/-! ## Laws -/

@[simp] theorem length_leBytes (n v : Nat) : (leBytes n v).length = n := by
  induction n generalizing v with
  | zero => rfl
  | succ n ih => simp [leBytes, ih]

theorem length_beBytes (n v : Nat) : (beBytes n v).length = n := by
  rw [beBytes, List.length_reverse, length_leBytes]

theorem size_slice? {b s : Bytes} {i n : Nat} (h : b.slice? i n = some s) : s.size = n := by
  unfold slice? at h
  split at h
  · cases h
    simp only [ByteArray.size_extract]
    omega
  · cases h

theorem slice?_eq_none_iff {b : Bytes} {i n : Nat} : b.slice? i n = none ↔ b.size < i + n := by
  unfold slice?
  split <;> simp <;> omega

theorem leNat?_lt {b : Bytes} {i n v : Nat} (h : b.leNat? i n = some v) : v < 1 <<< (8 * n) := by
  induction n generalizing i v with
  | zero => simp [leNat?] at h; simp [← h]
  | succ n ih =>
    simp only [leNat?, Option.bind_eq_bind, Option.bind_eq_some_iff, Option.pure_def,
      Option.some.injEq] at h
    obtain ⟨low, -, high, hhigh, rfl⟩ := h
    have := ih hhigh
    have := low.toNat_lt
    rw [Nat.mul_succ, Nat.shiftLeft_add, Nat.shiftLeft_eq]
    omega

theorem zeroFree_le (b : Bytes) (i n : Nat) : b.zeroFree i n ≤ n := by
  induction n generalizing i with
  | zero => simp [zeroFree]
  | succ n ih =>
    unfold zeroFree
    split
    · split
      · omega
      · have := ih (i + 1); omega
    · omega

end Bytes

end ImageTriage
