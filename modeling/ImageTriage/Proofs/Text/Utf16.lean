import ImageTriage.Proofs.Bytes.Layout

/-!
# Writing UTF-16 text

`Utf16.encode` writes a text in units: a character of the basic plane is one unit, any other a pair
of surrogates. Reading undoes it (`decode?_encode`), and where the units stand in a file, with a
zero unit after them, the reader of terminated text finds the text (`Bytes.Holds.utf16z`). The
reader of counted text needs no zero unit (`Bytes.Holds.utf16Units`).

The reader of terminated text looks no further than the zero unit. Where that is among the first
bytes of a file, the rest of the file does not count (`Bytes.utf16z_extract`).
-/

namespace ImageTriage

namespace Utf16

/-- The surrogate that opens the pair of a character. -/
def highOf (c : Char) : UInt16 := UInt16.ofNat (0xD800 + (c.toNat - 0x10000) / 0x400)

/-- The surrogate that closes the pair of a character. -/
def lowOf (c : Char) : UInt16 := UInt16.ofNat (0xDC00 + (c.toNat - 0x10000) % 0x400)

/-- The units of a character. -/
def charUnits (c : Char) : List UInt16 :=
  if c.toNat < 0x10000 then [UInt16.ofNat c.toNat] else [highOf c, lowOf c]

/-- The units of a text. -/
def encode (s : String) : List UInt16 := s.toList.flatMap charUnits

variable {c : Char} {u v : UInt16} {us : List UInt16}

/-! ## Reading what was written -/

theorem isHigh_iff : isHigh u ↔ 0xD800 ≤ u.toNat ∧ u.toNat < 0xDC00 := by
  simp [isHigh, UInt16.le_iff_toNat_le, UInt16.lt_iff_toNat_lt]

theorem isLow_iff : isLow u ↔ 0xDC00 ≤ u.toNat ∧ u.toNat < 0xE000 := by
  simp [isLow, UInt16.le_iff_toNat_le, UInt16.lt_iff_toNat_lt]

theorem chars?_cons_of_plain (hhigh : isHigh u = false) (hlow : isLow u = false) :
    chars? (u :: us) = (chars? us).map (Char.ofNat u.toNat :: ·) := by
  cases us with
  | nil => simp [chars?, hhigh, hlow]
  | cons v rest => simp [chars?, hhigh, hlow]

theorem chars?_cons_of_pair (hhigh : isHigh u) (hlow : isLow v) :
    chars? (u :: v :: us) = (chars? us).map (pair u v :: ·) := by
  simp [chars?, hhigh, hlow]

theorem toNat_of_char (c : Char) : c.toNat < 0xD800 ∨ 0xDFFF < c.toNat ∧ c.toNat < 0x110000 :=
  c.valid

theorem toNat_highOf (c : Char) : (highOf c).toNat = 0xD800 + (c.toNat - 0x10000) / 0x400 := by
  have hvalid := toNat_of_char c
  exact UInt16.toNat_ofNat_of_lt (show _ < 0x10000 by omega)

theorem toNat_lowOf (c : Char) : (lowOf c).toNat = 0xDC00 + (c.toNat - 0x10000) % 0x400 :=
  UInt16.toNat_ofNat_of_lt (show _ < 0x10000 by omega)

theorem pair_highOf_lowOf (h : 0x10000 ≤ c.toNat) : pair (highOf c) (lowOf c) = c := by
  have hnumber : 0x10000 + (0xD800 + (c.toNat - 0x10000) / 0x400 - 0xD800) * 0x400 +
      (0xDC00 + (c.toNat - 0x10000) % 0x400 - 0xDC00) = c.toNat := by omega
  rw [pair, toNat_highOf, toNat_lowOf, hnumber, Char.ofNat_toNat]

theorem chars?_charUnits_append (c : Char) (us : List UInt16) :
    chars? (charUnits c ++ us) = (chars? us).map (c :: ·) := by
  have hvalid := toNat_of_char c
  unfold charUnits
  split
  case isTrue hbasic =>
    have hunit : (UInt16.ofNat c.toNat).toNat = c.toNat := UInt16.toNat_ofNat_of_lt hbasic
    have hhigh : isHigh (UInt16.ofNat c.toNat) = false := by
      rw [← Bool.not_eq_true, isHigh_iff, hunit]
      omega
    have hlow : isLow (UInt16.ofNat c.toNat) = false := by
      rw [← Bool.not_eq_true, isLow_iff, hunit]
      omega
    rw [List.singleton_append, chars?_cons_of_plain hhigh hlow, hunit, Char.ofNat_toNat]
  case isFalse hbeyond =>
    have hhigh : isHigh (highOf c) := by
      rw [isHigh_iff, toNat_highOf]
      omega
    have hlow : isLow (lowOf c) := by
      rw [isLow_iff, toNat_lowOf]
      omega
    rw [List.cons_append, List.singleton_append, chars?_cons_of_pair hhigh hlow,
      pair_highOf_lowOf (by omega)]

theorem chars?_flatMap_charUnits (cs : List Char) : chars? (cs.flatMap charUnits) = some cs := by
  induction cs with
  | nil => rfl
  | cons c cs ih => rw [List.flatMap_cons, chars?_charUnits_append, ih, Option.map_some]

/-- Reading undoes writing. -/
theorem decode?_encode (s : String) : decode? (encode s) = some s := by
  rw [decode?, encode, chars?_flatMap_charUnits, Option.map_some, String.ofList_toList]

/-! ## Zero units -/

/-- The character NUL. -/
def nul : Char := Char.ofNat 0

theorem charUnits_nul : charUnits nul = [0] := rfl

theorem toNat_mem_charUnits (hu : u ∈ charUnits c) : u.toNat = c.toNat ∨ 0xD800 ≤ u.toNat := by
  unfold charUnits at hu
  split at hu
  case isTrue hbasic =>
    rw [List.mem_singleton.1 hu]
    exact .inl (UInt16.toNat_ofNat_of_lt hbasic)
  case isFalse =>
    have hhigh := toNat_highOf c
    have hlow := toNat_lowOf c
    simp only [List.mem_cons, List.not_mem_nil, or_false] at hu
    rcases hu with rfl | rfl <;> omega

theorem zero_mem_charUnits_iff : 0 ∈ charUnits c ↔ c = nul := by
  constructor
  · intro hzero
    rcases toNat_mem_charUnits hzero with h | h
    · rw [nul, ← Char.ofNat_toNat c, ← h]
      rfl
    · exact absurd h (by decide)
  · rintro rfl
    rw [charUnits_nul]
    exact List.mem_singleton_self 0

theorem zero_mem_encode_iff {s : String} : 0 ∈ encode s ↔ nul ∈ s.toList := by
  simp [encode, zero_mem_charUnits_iff]

/-- A zero unit ends what stands before it. -/
theorem takeWhile_append_zero (h : 0 ∉ us) (vs : List UInt16) :
    (us ++ 0 :: vs).takeWhile (· != 0) = us := by
  rw [List.takeWhile_append_of_pos]
  · simp
  · intro u hu
    simp only [bne_iff_ne]
    rintro rfl
    exact h hu

/-- The text ends at the first zero unit, and so before any other. -/
theorem length_takeWhile_le_of_zero {k : Nat} (h : us[k]? = some 0) :
    (us.takeWhile (· != 0)).length ≤ k := by
  induction us generalizing k with
  | nil => cases h
  | cons u us ih =>
    cases k with
    | zero =>
      rw [List.getElem?_cons_zero, Option.some.injEq] at h
      simp [h]
    | succ k =>
      have hrest := ih (k := k) h
      rw [List.takeWhile_cons]
      split
      · exact Nat.succ_le_succ hrest
      · exact Nat.zero_le _

end Utf16

namespace Bytes

open Utf16

variable {b : Bytes} {i bound : Nat} {s : String}

/-- A text written with a zero unit after it is read in whole. -/
theorem Holds.utf16z (h : b.Holds i (unitBytes (encode s ++ [0]))) (hnul : nul ∉ s.toList)
    (hbound : (encode s).length < bound) :
    b.utf16z i bound = .ok (s, 2 * ((encode s).length + 1)) := by
  have hzero : 0 ∉ encode s := mt zero_mem_encode_iff.1 hnul
  have hlength : (encode s ++ [0]).length = (encode s).length + 1 := List.length_append
  have hpos : 0 < (unitBytes (encode s ++ [0])).length := by
    rw [length_unitBytes, hlength]
    omega
  have hfits := h.fits_of_ne_nil (List.ne_nil_of_length_pos hpos)
  rw [length_unitBytes, hlength] at hfits
  -- the reader goes on to its bound or to the end of the file, and cuts at the first zero unit
  obtain ⟨extra, hextra⟩ : ∃ extra,
      min bound ((b.size - i) / 2) = (encode s ++ [0]).length + extra :=
    ⟨_, (Nat.add_sub_cancel' (by rw [hlength]; omega)).symm⟩
  have hunits := h.units_prefix extra
  rw [← hextra, List.append_assoc, List.singleton_append] at hunits
  rw [Bytes.utf16z, if_neg (by omega), hunits]
  dsimp only
  rw [takeWhile_append_zero hzero, decode?_encode]
  simp only [List.length_append, List.length_cons]
  congr 2
  omega

/-- A counted text is the text of its units, where these are well-formed. -/
theorem utf16Units_of_decode? {n : Nat} (hfits : i + 2 * n ≤ b.size)
    (hs : decode? (b.units i n) = some s) : b.utf16Units i n = .ok s := by
  rw [utf16Units, withinBounds_eq_ok_iff.2 hfits, ok_bind, decodeLossy_of_decode? hs]
  rfl

/-- A text whose units are counted is read in whole. -/
theorem Holds.utf16Units (h : b.Holds i (unitBytes (encode s))) (hi : i ≤ b.size) :
    b.utf16Units i (encode s).length = .ok s := by
  have hfits := h.fits hi
  rw [length_unitBytes] at hfits
  exact utf16Units_of_decode? hfits (by rw [h.units, decode?_encode])

/-! ## A text at the beginning of a file -/

/-- The text from offset `i` on ends in the first `limit` bytes, with its zero unit or with the
last unit that is looked at. -/
def TextEndsWithin (b : Bytes) (limit i bound : Nat) : Prop :=
  i + 2 * bound ≤ limit ∨ ∃ k < bound, b.u16? (i + 2 * k) = some 0 ∧ i + 2 * k + 2 ≤ limit

/-- A text that ends in the first bytes is read in them. -/
theorem utf16z_extract {limit : Nat} (hlimit : limit ≤ b.size) (hbound : 0 < bound)
    (hend : b.TextEndsWithin limit i bound) :
    utf16z (b.extract 0 limit) i bound = b.utf16z i bound := by
  have hsize : (b.extract 0 limit).size = limit := by
    rw [ByteArray.size_extract]
    omega
  have hi : i + 2 ≤ limit := by
    rcases hend with hall | ⟨k, -, -, hk⟩ <;> omega
  have hcut : units (b.extract 0 limit) i (min bound ((limit - i) / 2)) =
      (b.units i (min bound ((b.size - i) / 2))).take (min bound ((limit - i) / 2)) := by
    rw [units_take (by omega), units_extract hlimit (by omega), Nat.zero_add]
  unfold utf16z
  rw [hsize, if_neg (by omega), if_neg (by omega), hcut]
  generalize hshort : min bound ((limit - i) / 2) = short
  generalize hus : b.units i (min bound ((b.size - i) / 2)) = us
  have hall : us.length ≤ short ∨ (us.takeWhile (· != 0)).length < short := by
    rcases hend with hall | ⟨k, hk, hzero, hend⟩
    · have hlength := length_units_le b i (min bound ((b.size - i) / 2))
      rw [hus] at hlength
      omega
    · have htext : (us.takeWhile (· != 0)).length ≤ k := by
        refine length_takeWhile_le_of_zero ?_
        rw [← hus, getElem?_units (by omega) (by omega), hzero]
      omega
  have hle := (List.takeWhile_prefix (l := us) (· != 0)).length_le
  have htake : (us.take short).takeWhile (· != 0) = us.takeWhile (· != 0) := by
    rw [← List.take_takeWhile, List.take_of_length_le (by omega)]
  dsimp only
  rw [htake, List.length_take]
  have htaken : min ((us.takeWhile (· != 0)).length + 1) (min short us.length) =
      min ((us.takeWhile (· != 0)).length + 1) us.length := by omega
  rw [htaken]

end Bytes

end ImageTriage
