/-!
# Blank characters

The characters with the property White_Space, and text without those at its ends.
-/

namespace ImageTriage.Text

/-- Whether a character is blank. -/
def isBlank (c : Char) : Bool :=
  (0x09 ≤ c.toNat && c.toNat ≤ 0x0D) || c.toNat == 0x20 || c.toNat == 0x85 || c.toNat == 0xA0
    || c.toNat == 0x1680 || (0x2000 ≤ c.toNat && c.toNat ≤ 0x200A) || c.toNat == 0x2028
    || c.toNat == 0x2029 || c.toNat == 0x202F || c.toNat == 0x205F || c.toNat == 0x3000

/-- The characters without the blank ones at both ends. -/
def trim (cs : List Char) : List Char :=
  ((cs.dropWhile isBlank).reverse.dropWhile isBlank).reverse

/-- Text with no blank at either end stays as it is. -/
theorem trim_eq_self {cs : List Char} (hhead : ∀ c ∈ cs.head?, ¬isBlank c)
    (hlast : ∀ c ∈ cs.getLast?, ¬isBlank c) : trim cs = cs := by
  have hdrop : ∀ {l : List Char}, (∀ c ∈ l.head?, ¬isBlank c) → l.dropWhile isBlank = l := by
    intro l h
    cases l with
    | nil => rfl
    | cons c l => simp_all
  rw [trim, hdrop hhead, hdrop (by simpa using hlast), List.reverse_reverse]

end ImageTriage.Text
