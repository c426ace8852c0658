import ImageTriage.Proofs.Text.Utf16

/-!
# The two readers of UTF-16 text agree

Where a text was written, both readers find it again: the reader of terminated text with the zero
unit behind it (`Bytes.Holds.utf16z`), the reader of counted text without
(`Bytes.Holds.utf16Units`).

`Bytes.UnitsEnd` says where the reader of terminated text stops and how many bytes it took, in terms
of the units in the file alone. It takes no byte from outside the file or from behind its bound, and
the reader of counted text finds the same text in the units before the stop
(`Bytes.exists_unitsEnd_of_utf16z`): strict reading has ruled out the stray surrogates that lossy
reading replaces.
-/

namespace ImageTriage

namespace Bytes

open Utf16

variable {b : Bytes} {i n bound taken : Nat} {s : String}

theorem length_units (h : i + 2 * n ≤ b.size) : (b.units i n).length = n := by
  induction n generalizing i with
  | zero => rfl
  | succ n ih => rw [units, u16?_eq_some (by omega), List.length_cons, ih (by omega)]

/-- Reading stops behind the `n` units from offset `i`, none of which is zero: at a zero unit, which
is taken too, or without one at the bound or where no other unit is whole. -/
structure UnitsEnd (b : Bytes) (i bound n taken : Nat) : Prop where
  le_bound : n ≤ bound
  le_size : i + 2 * n ≤ b.size
  ne_zero : ∀ k < n, b.u16? (i + 2 * k) ≠ some 0
  ends : (n < bound ∧ b.u16? (i + 2 * n) = some 0 ∧ taken = 2 * (n + 1)) ∨
    ((n = bound ∨ b.size < i + 2 * (n + 1)) ∧ taken = 2 * n)

theorem UnitsEnd.taken_le (h : b.UnitsEnd i bound n taken) :
    2 ∣ taken ∧ taken ≤ 2 * bound ∧ i + taken ≤ b.size := by
  have hbound := h.le_bound
  have hsize := h.le_size
  rcases h.ends with ⟨hlt, hzero, rfl⟩ | ⟨-, rfl⟩
  · obtain ⟨v, hv, -⟩ := Option.map_eq_some_iff.1 hzero
    have hfits := fits_of_leNat? (by omega) hv
    exact ⟨⟨n + 1, rfl⟩, by omega, by omega⟩
  · exact ⟨⟨n, rfl⟩, by omega, by omega⟩

/-- Of the units from offset `i`, those before the first zero unit. -/
theorem exists_units_before_zero {count : Nat} (h : i + 2 * count ≤ b.size) :
    ∃ n ≤ count, (b.units i count).takeWhile (· != 0) = b.units i n ∧
      (∀ k < n, b.u16? (i + 2 * k) ≠ some 0) ∧ (n = count ∨ b.u16? (i + 2 * n) = some 0) := by
  induction count generalizing i with
  | zero => exact ⟨0, Nat.le_refl _, rfl, fun k hk => absurd hk (Nat.not_lt_zero k), .inl rfl⟩
  | succ count ih =>
    obtain ⟨u, hu⟩ : ∃ u, b.u16? i = some u := ⟨_, u16?_eq_some (by omega)⟩
    have hcons : ∀ n, b.units i (n + 1) = u :: b.units (i + 2) n := fun n => by rw [units, hu]
    rw [hcons]
    by_cases hzero : u = 0
    · subst hzero
      exact ⟨0, Nat.zero_le _, rfl, fun k hk => absurd hk (Nat.not_lt_zero k), .inr hu⟩
    · obtain ⟨n, hn, htext, hnone, hstop⟩ := ih (i := i + 2) (by omega)
      have hnext : ∀ k, i + 2 + 2 * k = i + 2 * (k + 1) := fun k => by omega
      refine ⟨n + 1, Nat.succ_le_succ hn, ?_, fun k hk => ?_, ?_⟩
      · rw [hcons, List.takeWhile_cons_of_pos (by simpa using hzero), htext]
      · cases k with
        | zero => simpa [hu] using hzero
        | succ k => exact hnext k ▸ hnone k (Nat.lt_of_succ_lt_succ hk)
      · exact hstop.imp (congrArg (· + 1)) fun hlast => hnext n ▸ hlast

/-- Terminated text is the text of the units before the stop. -/
theorem exists_unitsEnd_of_utf16z (h : b.utf16z i bound = .ok (s, taken)) :
    ∃ n, b.UnitsEnd i bound n taken ∧ decode? (b.units i n) = some s := by
  unfold utf16z at h
  split at h
  case isTrue => cases h
  case isFalse hstart =>
    generalize hcount : min bound ((b.size - i) / 2) = count at h
    have hfits : i + 2 * count ≤ b.size := by omega
    obtain ⟨n, hn, htext, hnone, hstop⟩ := exists_units_before_zero hfits
    dsimp only at h
    rw [htext, length_units hfits, length_units (by omega)] at h
    split at h
    case h_2 => cases h
    case h_1 text hdecode =>
      cases h
      refine ⟨n, ⟨by omega, by omega, hnone, ?_⟩, hdecode⟩
      rcases Nat.lt_or_ge n count with hlt | hge
      · exact .inl ⟨by omega, hstop.resolve_left (by omega), by omega⟩
      · exact .inr ⟨by omega, by omega⟩

/-- Both readers undo writing, and where the reader of terminated text answers, the reader of
counted text gives the same text for the units before the stop. -/
theorem utf16_readers_agree :
    (∀ (front back : List UInt8) (s : String) (bound : Nat),
      nul ∉ s.toList → (encode s).length < bound →
        utf16z (front ++ unitBytes (encode s ++ [0]) ++ back).toByteArray front.length bound =
          .ok (s, 2 * ((encode s).length + 1))) ∧
    (∀ (front back : List UInt8) (s : String),
      utf16Units (front ++ unitBytes (encode s) ++ back).toByteArray front.length
        (encode s).length = .ok s) ∧
    ∀ (b : Bytes) (i bound taken : Nat) (s : String), b.utf16z i bound = .ok (s, taken) →
      2 ∣ taken ∧ taken ≤ 2 * bound ∧ i + taken ≤ b.size ∧
        ∃ n, b.UnitsEnd i bound n taken ∧ b.utf16Units i n = .ok s := by
  refine ⟨fun front back s bound hnul hbound => ?_, fun front back s => ?_,
    fun b i bound taken s h => ?_⟩
  · exact (holds_between front _ back).utf16z hnul hbound
  · exact (holds_between front _ back).utf16Units (by simp)
  · obtain ⟨n, hend, hs⟩ := exists_unitsEnd_of_utf16z h
    obtain ⟨htwo, hbound, hsize⟩ := hend.taken_le
    exact ⟨htwo, hbound, hsize, n, hend, utf16Units_of_decode? hend.le_size hs⟩

/-- A text of two characters and three units. -/
def pairText : String := String.ofList ['a', Char.ofNat 0x1F600]

/-- Between other bytes, both readers find a text with a surrogate pair. -/
theorem utf16_readers_agree_pairText :
    nul ∉ pairText.toList ∧ (encode pairText).length = 3 ∧
      utf16z ([9] ++ unitBytes (encode pairText ++ [0]) ++ [7]).toByteArray 1 4 =
        .ok (pairText, 8) ∧
      utf16Units ([9] ++ unitBytes (encode pairText) ++ [7]).toByteArray 1 3 = .ok pairText ∧
      ∃ n, UnitsEnd ([9] ++ unitBytes (encode pairText ++ [0]) ++ [7]).toByteArray 1 4 n 8 ∧
        utf16Units ([9] ++ unitBytes (encode pairText ++ [0]) ++ [7]).toByteArray 1 n =
          .ok pairText := by
  have hnul : nul ∉ pairText.toList := by
    rw [pairText, String.toList_ofList]
    decide
  have hlength : (encode pairText).length = 3 := by
    rw [encode, pairText, String.toList_ofList]
    decide
  obtain ⟨hterminated, hcounted, hagree⟩ := utf16_readers_agree
  have hread := hterminated [9] [7] pairText 4 hnul (by omega)
  have hunits := hcounted [9] [7] pairText
  rw [hlength] at hread hunits
  exact ⟨hnul, hlength, hread, hunits, (hagree _ _ _ _ _ hread).2.2.2⟩

end Bytes

end ImageTriage
