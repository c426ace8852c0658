import ImageTriage.Proofs.Text.Utf16
import ImageTriage.Text.Utf8

/-!
# Writing UTF-8 text

`Utf8.encode` writes a text in bytes, of which only those of a NUL are zero (`zero_mem_encode_iff`).
So a zero byte ends the text before it. `Bytes.TextStands` says what the reader of texts finds, and
where there is none (`Bytes.cstring?_eq_some_iff`); a name with a zero byte after it is always found
(`Bytes.Holds.cstring?`).
-/

namespace ImageTriage

namespace Utf8

/-- The bytes of a text. -/
def encode (s : String) : List UInt8 := s.toList.flatMap String.utf8EncodeChar

theorem toByteArray_encode (s : String) : (encode s).toByteArray = s.toUTF8 :=
  String.utf8Encode_toList

theorem fromUTF8?_encode (s : String) : String.fromUTF8? (encode s).toByteArray = some s := by
  rw [toByteArray_encode, String.toUTF8_eq_toByteArray]
  exact dif_pos s.isValidUTF8

/-- Bytes that are read as a text are the bytes of that text. -/
theorem encode_of_fromUTF8? {xs : Bytes} {s : String} (h : String.fromUTF8? xs = some s) :
    encode s = Bytes.list xs := by
  unfold String.fromUTF8? at h
  split at h
  · cases h
    rw [← Bytes.list_toByteArray (encode _), toByteArray_encode]
    rfl
  · cases h

variable {c : Char} {x : UInt8}

/-- Beyond ASCII, every byte of a character has its high bit set. -/
theorem toNat_mem_utf8EncodeChar (hx : x ∈ String.utf8EncodeChar c) :
    x.toNat = c.toNat ∨ 0x80 ≤ x.toNat := by
  have hbyte : ∀ n < 256, (UInt8.ofNat n).toNat = n := fun n hn => UInt8.toNat_ofNat_of_lt hn
  unfold String.utf8EncodeChar at hx
  dsimp only at hx
  split at hx
  · rw [List.mem_singleton.1 hx]
    exact .inl (hbyte _ (by omega))
  right
  split at hx
  · simp only [List.mem_cons, List.not_mem_nil, or_false] at hx
    rcases hx with rfl | rfl <;> rw [hbyte _ (by omega)] <;> omega
  split at hx
  · simp only [List.mem_cons, List.not_mem_nil, or_false] at hx
    rcases hx with rfl | rfl | rfl <;> rw [hbyte _ (by omega)] <;> omega
  · simp only [List.mem_cons, List.not_mem_nil, or_false] at hx
    rcases hx with rfl | rfl | rfl | rfl <;> rw [hbyte _ (by omega)] <;> omega

theorem zero_mem_utf8EncodeChar_iff : 0 ∈ String.utf8EncodeChar c ↔ c = Utf16.nul := by
  constructor
  · intro hzero
    rcases toNat_mem_utf8EncodeChar hzero with h | h
    · rw [Utf16.nul, ← Char.ofNat_toNat c, ← h]
      rfl
    · exact absurd h (by decide)
  · rintro rfl
    decide

theorem zero_mem_encode_iff {s : String} : 0 ∈ encode s ↔ Utf16.nul ∈ s.toList := by
  simp [encode, zero_mem_utf8EncodeChar_iff]

/-- A name that can stand in a file: at most `bound` bytes, none of them zero. -/
structure IsName (bound : Nat) (s : String) : Prop where
  nul_notMem : Utf16.nul ∉ s.toList
  length_le : (encode s).length ≤ bound

instance (bound : Nat) (s : String) : Decidable (IsName bound s) :=
  decidable_of_iff (Utf16.nul ∉ s.toList ∧ (encode s).length ≤ bound)
    ⟨fun h => ⟨h.1, h.2⟩, fun h => ⟨h.1, h.2⟩⟩

/-- A name with the zero byte that ends it. -/
def nameBytes (s : String) : List UInt8 := encode s ++ [0]

end Utf8

namespace Bytes

open Utf8

variable {b : Bytes} {i n bound : Nat} {s : String} {xs : List UInt8}

/-- Bytes that are not zero are passed over. -/
theorem Holds.zeroFree_add (h : b.Holds i xs) (hzero : 0 ∉ xs) (n : Nat) :
    b.zeroFree i (xs.length + n) = xs.length + b.zeroFree (i + xs.length) n := by
  induction xs generalizing i with
  | nil => simp
  | cons x xs ih =>
    obtain ⟨hx, hxs⟩ := h
    have hne : x ≠ 0 := List.ne_of_not_mem_cons hzero |>.symm
    have hrest := ih hxs (List.not_mem_of_not_mem_cons hzero)
    have hplace : i + 1 + xs.length = i + (xs.length + 1) := by omega
    rw [List.length_cons, Nat.succ_add, zeroFree, hx]
    simp only [if_neg hne, hrest, hplace]
    omega

/-- The bytes before the first zero byte, among bytes that are all in the file. -/
theorem zeroFree_spec (h : i + n ≤ b.size) :
    0 ∉ list (b.extract i (i + b.zeroFree i n)) ∧
      (b.zeroFree i n = n ∨ b[i + b.zeroFree i n]? = some 0) := by
  induction n generalizing i with
  | zero => simp [zeroFree, list]
  | succ n ih =>
    have hbyte : b[i]? = some b[i] := getElem?_pos b i (by omega)
    rw [zeroFree, hbyte]
    dsimp only
    split
    case isTrue hzero =>
      refine ⟨by simp [list], .inr ?_⟩
      rw [Nat.add_zero, hbyte, hzero]
    case isFalse hne =>
      obtain ⟨hfree, hend⟩ := ih (i := i + 1) (by omega)
      have hplace : i + (b.zeroFree (i + 1) n + 1) = i + 1 + b.zeroFree (i + 1) n := by omega
      have hfirst : b.Holds i [b[i]] := ⟨hbyte, trivial⟩
      have hcut := hfirst.list_extract (by omega)
      rw [hplace, list_extract_append (k := i + 1) (by omega) (by omega)]
      constructor
      · rw [List.length_singleton] at hcut
        rw [hcut, List.mem_append, List.mem_singleton]
        rintro (hzero | hmem)
        · exact hne hzero.symm
        · exact hfree hmem
      · rcases hend with hall | hzero
        · exact .inl (by omega)
        · exact .inr hzero

/-- A text stands at offset `i`: no byte of it is zero, there are at most `bound` of them, and
behind them is a zero byte, unless the bound or the end of the file is reached. -/
structure TextStands (b : Bytes) (i bound : Nat) (s : String) : Prop where
  start_le : i ≤ b.size
  isName : IsName bound s
  holds : b.Holds i (encode s)
  ends : b[i + (encode s).length]? = some 0 ∨ (encode s).length = bound ∨
    i + (encode s).length = b.size

theorem cstring?_eq_some_iff : b.cstring? i bound = some s ↔ b.TextStands i bound s := by
  rw [Bytes.cstring?]
  constructor
  · intro h
    split at h
    case isFalse => cases h
    case isTrue hi =>
      obtain ⟨hfree, hend⟩ :=
        zeroFree_spec (b := b) (i := i) (n := min bound (b.size - i)) (by omega)
      have hle := b.zeroFree_le i (min bound (b.size - i))
      have htext := encode_of_fromUTF8? h
      have hlength := length_list_extract b i (i + b.zeroFree i (min bound (b.size - i)))
      have hholds := b.holds_list_extract i (i + b.zeroFree i (min bound (b.size - i)))
      rw [← htext] at hfree hlength hholds
      have hcount : (encode s).length = b.zeroFree i (min bound (b.size - i)) := by omega
      refine ⟨hi, ⟨mt zero_mem_encode_iff.2 hfree, by omega⟩, hholds, ?_⟩
      rw [hcount]
      rcases hend with hall | hzero
      · exact .inr (by omega)
      · exact .inl hzero
  · rintro ⟨hi, hname, hholds, hend⟩
    have hlength := hname.length_le
    have hfits := hholds.fits hi
    have hfree : 0 ∉ encode s := mt zero_mem_encode_iff.1 hname.nul_notMem
    obtain ⟨rest, hrest⟩ : ∃ rest, min bound (b.size - i) = (encode s).length + rest :=
      ⟨min bound (b.size - i) - (encode s).length, by omega⟩
    have hstop : b.zeroFree (i + (encode s).length) rest = 0 := by
      cases rest with
      | zero => rfl
      | succ rest =>
        have hzero := hend.resolve_right (by omega)
        simp [zeroFree, hzero]
    rw [if_pos hi, hrest, hholds.zeroFree_add hfree, hstop, Nat.add_zero, hholds.extract hi,
      fromUTF8?_encode]

/-- A name is read in whole. -/
theorem Holds.cstring? (h : b.Holds i (nameBytes s)) (hs : IsName bound s) :
    b.cstring? i bound = some s := by
  have hfits := h.fits_of_ne_nil (by simp [nameBytes])
  rw [nameBytes, List.length_append, List.length_singleton] at hfits
  exact cstring?_eq_some_iff.2 ⟨by omega, hs, h.left, .inl h.right.1⟩

end Bytes

end ImageTriage
