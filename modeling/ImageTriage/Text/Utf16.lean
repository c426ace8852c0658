import ImageTriage.Bytes.Basic
import ImageTriage.Bytes.Bounds

/-!
# UTF-16 text in a file

Windows structures hold text as little-endian 16-bit units. `decode?` refuses units that are not
well-formed; `decodeLossy` reads each stray surrogate as U+FFFD. The two agree wherever the first
answers.

* `Bytes.utf16z` reads up to a zero unit or a bound, strictly, and says how many bytes it took.
* `Bytes.utf16Units` reads a given number of units, lossily.
-/

namespace ImageTriage

namespace Utf16

/-- Whether a unit opens a surrogate pair. -/
def isHigh (u : UInt16) : Bool := 0xD800 ≤ u && u < 0xDC00

/-- Whether a unit closes a surrogate pair. -/
def isLow (u : UInt16) : Bool := 0xDC00 ≤ u && u < 0xE000

/-- The character of a surrogate pair. -/
def pair (high low : UInt16) : Char :=
  Char.ofNat (0x10000 + (high.toNat - 0xD800) * 0x400 + (low.toNat - 0xDC00))

/-- The characters of the units; `none` where a surrogate stands alone. -/
def chars? : List UInt16 → Option (List Char)
  | [] => some []
  | [u] => if isHigh u || isLow u then none else some [Char.ofNat u.toNat]
  | u :: v :: rest =>
    if isHigh u then
      if isLow v then (chars? rest).map (pair u v :: ·) else none
    else if isLow u then none
    else (chars? (v :: rest)).map (Char.ofNat u.toNat :: ·)

/-- The characters of the units, with U+FFFD for each surrogate that stands alone. -/
def charsLossy : List UInt16 → List Char
  | [] => []
  | [u] => [if isHigh u || isLow u then Char.ofNat 0xFFFD else Char.ofNat u.toNat]
  | u :: v :: rest =>
    if isHigh u && isLow v then pair u v :: charsLossy rest
    else
      (if isHigh u || isLow u then Char.ofNat 0xFFFD else Char.ofNat u.toNat)
        :: charsLossy (v :: rest)

/-- The text of well-formed units. -/
def decode? (us : List UInt16) : Option String := (chars? us).map String.ofList

/-- The text of any units. -/
def decodeLossy (us : List UInt16) : String := String.ofList (charsLossy us)

theorem charsLossy_of_chars? {us : List UInt16} {cs : List Char} (h : chars? us = some cs) :
    charsLossy us = cs := by
  fun_induction chars? us generalizing cs with
  | case1 => simp_all [charsLossy]
  | case2 u hu => simp at h
  | case3 u hu => simp_all [charsLossy]
  | case4 u v rest hu hv ih =>
    obtain ⟨ds, hds, rfl⟩ := Option.map_eq_some_iff.1 h
    simp [charsLossy, hu, hv, ih hds]
  | case5 => simp at h
  | case6 => simp at h
  | case7 u v rest hu hv ih =>
    obtain ⟨ds, hds, rfl⟩ := Option.map_eq_some_iff.1 h
    simp_all [charsLossy]

/-- Strict and lossy reading agree wherever strict reading answers. -/
theorem decodeLossy_of_decode? {us : List UInt16} {s : String} (h : decode? us = some s) :
    decodeLossy us = s := by
  obtain ⟨cs, hcs, rfl⟩ := Option.map_eq_some_iff.1 h
  rw [decodeLossy, charsLossy_of_chars? hcs]

end Utf16

namespace Bytes

/-- The `n` 16-bit units from offset `i`, as many of them as are whole in the file. -/
def units (b : Bytes) (i : Nat) : Nat → List UInt16
  | 0 => []
  | n + 1 =>
    match b.u16? i with
    | some u => u :: units b (i + 2) n
    | none => []

/-- The text from offset `i` up to a zero unit, at most `bound` units of it, and the number of
bytes taken, the zero unit among them. There must be a byte to look at and no stray surrogate. -/
def utf16z (b : Bytes) (i bound : Nat) : Except Fault (String × Nat) :=
  if b.size ≤ i ∨ bound = 0 then .error (.badOffset i)
  else
    let us := b.units i (min bound ((b.size - i) / 2))
    let text := us.takeWhile (· != 0)
    match Utf16.decode? text with
    | some s => .ok (s, 2 * min (text.length + 1) us.length)
    | none => .error .textEncoding

/-- The text of exactly `n` units from offset `i`. -/
def utf16Units (b : Bytes) (i n : Nat) : Except Fault String := do
  withinBounds i (2 * n) b.size
  return Utf16.decodeLossy (b.units i n)

end Bytes

end ImageTriage
