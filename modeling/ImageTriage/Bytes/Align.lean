/-!
# Rounding up to a power of two

`alignUp a v` clears, in `v + (a - 1)`, the bits of `a - 1`. For a power of two that is the least
multiple of `a` that is not below `v`; for other `a` only the bits of `a - 1` count. An alignment of
zero asks for no rounding.
-/

namespace ImageTriage

/-- `v` rounded up to the alignment `a`. -/
def alignUp (a v : Nat) : Nat :=
  if a = 0 then v else (v + (a - 1)) - ((v + (a - 1)) &&& (a - 1))

@[simp] theorem alignUp_zero (v : Nat) : alignUp 0 v = v := rfl

theorem alignUp_le (a v : Nat) : alignUp a v ≤ v + (a - 1) := by
  unfold alignUp
  split
  · exact Nat.le_add_right _ _
  · exact Nat.sub_le _ _

/-- Rounding to a power of two gives its next multiple. -/
theorem alignUp_one_shiftLeft (k v : Nat) :
    alignUp (1 <<< k) v = (v + (1 <<< k - 1)) / 1 <<< k * 1 <<< k := by
  unfold alignUp
  rw [Nat.one_shiftLeft, if_neg (Nat.ne_of_gt (Nat.two_pow_pos k)), Nat.and_two_pow_sub_one_eq_mod,
    Nat.div_mul_self_eq_mod_sub_self]

theorem alignUp_four (v : Nat) : alignUp 4 v = (v + 3) / 4 * 4 := alignUp_one_shiftLeft 2 v

theorem alignUp_eight (v : Nat) : alignUp 8 v = (v + 7) / 8 * 8 := alignUp_one_shiftLeft 3 v

end ImageTriage
