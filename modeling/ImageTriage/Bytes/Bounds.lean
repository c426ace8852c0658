import ImageTriage.Fault

/-!
# Ranges within a length

A range of bytes is within a length when it ends there at the latest; an empty range may lie at the
end itself.
-/

namespace ImageTriage

/-- Checks that the `n` bytes from offset `i` are within `length`. -/
def withinBounds (i n length : Nat) : Except Fault Unit :=
  if i + n ≤ length then .ok () else .error (.badOffset i)

theorem withinBounds_eq_ok_iff {i n length : Nat} :
    withinBounds i n length = .ok () ↔ i + n ≤ length := by
  unfold withinBounds
  split <;> simp_all

end ImageTriage
