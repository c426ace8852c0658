import ImageTriage.Proofs.Text.Words
import ImageTriage.Text.Decimal

/-!
# Lines of a text

A line feed ends a line. What is put together from texts of one line is one line (`oneLine_append`),
and the numerals and digests of a report are: no digit is a line feed.
-/

namespace ImageTriage.Text

/-- The lines of a text, what stands between its line feeds. -/
def lines (s : String) : List String := (pieces '\n' s.toList).map String.ofList

/-- The text has no line feed. -/
def OneLine (s : String) : Prop := '\n' ∉ s.toList

instance (s : String) : Decidable (OneLine s) := inferInstanceAs (Decidable (_ ∉ _))

variable {s t : String}

/-! ## Cutting into lines -/

theorem lines_of_oneLine (h : OneLine s) : lines s = [s] := by
  rw [lines, pieces_of_notMem h, List.map_singleton, String.ofList_toList]

/-- What comes after a line feed is on lines of its own. -/
theorem lines_append_lineFeed (s t : String) : lines (s ++ "\n" ++ t) = lines s ++ lines t := by
  have htext : (s ++ "\n" ++ t).toList = s.toList ++ '\n' :: t.toList := by simp
  rw [lines, htext, pieces_append_separator, List.map_append, lines, lines]

/-! ## Texts of one line -/

@[simp] theorem oneLine_append : OneLine (s ++ t) ↔ OneLine s ∧ OneLine t := by
  simp [OneLine, not_or]

@[simp] theorem oneLine_ofList {cs : List Char} : OneLine (String.ofList cs) ↔ '\n' ∉ cs := by
  rw [OneLine, String.toList_ofList]

theorem oneLine_pushn {c : Char} (hc : c ≠ '\n') (n : Nat) : OneLine (s.pushn c n) ↔ OneLine s := by
  induction n with
  | zero => rfl
  | succ n ih =>
    have hpush : s.pushn c (n + 1) = (s.pushn c n).push c := rfl
    rw [hpush, ← ih]
    simp [OneLine, Ne.symm hc]

@[simp] theorem oneLine_padRight {width : Nat} : OneLine (padRight width s) ↔ OneLine s :=
  oneLine_pushn (by decide) _

theorem oneLine_padLeft {fill : Char} (hfill : fill ≠ '\n') {width : Nat} :
    OneLine (padLeft fill width s) ↔ OneLine s := by
  simp [padLeft, List.mem_replicate, Ne.symm hfill]

/-- Texts of one line with a text of one line between any two. -/
theorem oneLine_intercalate {separator : String} {ss : List String} (hseparator : OneLine separator)
    (h : ∀ s ∈ ss, OneLine s) : OneLine (String.intercalate separator ss) := by
  rw [OneLine, String.toList_intercalate]
  induction ss with
  | nil => simp
  | cons s ss ih =>
    rw [List.forall_mem_cons] at h
    cases ss with
    | nil => simpa [OneLine] using h.1
    | cons next rest =>
      have hrest := ih h.2
      rw [List.map_cons] at hrest
      rw [List.map_cons, List.map_cons, List.intercalate_cons_cons]
      simp only [List.mem_append, not_or]
      exact ⟨⟨h.1, hseparator⟩, hrest⟩

/-- The name in a table, or the text for what has none there. -/
theorem oneLine_lookup_getD {α : Type} [BEq α] [LawfulBEq α] {table : List (α × String)}
    (htable : ∀ row ∈ table, OneLine row.2) (hs : OneLine s) (a : α) :
    OneLine ((table.lookup a).getD s) := by
  cases hfound : table.lookup a with
  | none => exact hs
  | some name =>
    obtain ⟨before, after, rfl, -⟩ := List.lookup_eq_some_iff.1 hfound
    exact htable (a, name) (by simp)

/-! ## Numerals -/

theorem digitChar_of_le {n : Nat} (h : 16 ≤ n) : Nat.digitChar n = '*' := by
  unfold Nat.digitChar
  repeat rw [if_neg (by omega)]

/-- A digit is no line feed, and its capital is none. -/
theorem digitChar_ne_lineFeed (n : Nat) :
    '\n' ≠ Nat.digitChar n ∧ '\n' ≠ (Nat.digitChar n).toUpper := by
  rcases Nat.lt_or_ge n 16 with hlt | hge
  · revert n
    decide
  · rw [digitChar_of_le hge]
    decide

theorem exists_of_mem_toDigitsCore {base fuel n : Nat} {c : Char} {digits : List Char}
    (h : c ∈ Nat.toDigitsCore base fuel n digits) : c ∈ digits ∨ ∃ d, c = Nat.digitChar d := by
  induction fuel generalizing n digits with
  | zero => exact .inl h
  | succ fuel ih =>
    rw [Nat.toDigitsCore] at h
    split at h
    · exact (List.mem_cons.1 h).elim (fun h => .inr ⟨_, h⟩) .inl
    · rcases ih h with h | h
      · exact (List.mem_cons.1 h).elim (fun h => .inr ⟨_, h⟩) .inl
      · exact .inr h

theorem exists_of_mem_toDigits {base n : Nat} {c : Char} (h : c ∈ Nat.toDigits base n) :
    ∃ d, c = Nat.digitChar d :=
  (exists_of_mem_toDigitsCore h).resolve_left List.not_mem_nil

theorem lineFeed_notMem_toDigits (base n : Nat) : '\n' ∉ Nat.toDigits base n := fun h =>
  have ⟨d, hd⟩ := exists_of_mem_toDigits h
  (digitChar_ne_lineFeed d).1 hd

@[simp] theorem oneLine_repr (n : Nat) : OneLine n.repr :=
  oneLine_ofList.2 (lineFeed_notMem_toDigits 10 n)

theorem oneLine_toString (n : Nat) : OneLine (toString n) := oneLine_repr n

@[simp] theorem oneLine_hex (width n : Nat) : OneLine (hex width n) := by
  rw [hex, oneLine_padLeft (by decide), oneLine_ofList]
  exact lineFeed_notMem_toDigits 16 n

@[simp] theorem oneLine_hexMarked (width n : Nat) : OneLine (hexMarked width n) :=
  oneLine_append.2 ⟨by decide, oneLine_hex width n⟩

@[simp] theorem oneLine_hexUpper (width n : Nat) : OneLine (hexUpper width n) := by
  rw [hexUpper, oneLine_padLeft (by decide), oneLine_ofList]
  intro h
  obtain ⟨c, hc, hupper⟩ := List.mem_map.1 h
  obtain ⟨d, rfl⟩ := exists_of_mem_toDigits hc
  exact (digitChar_ne_lineFeed d).2 hupper.symm

/-- Two digits per byte, whichever the sixteen digits are. -/
theorem lineFeed_notMem_digits {digit : Nat → Char} (hdigit : ∀ n < 16, '\n' ≠ digit n)
    (bs : List UInt8) :
    '\n' ∉ bs.flatMap fun b => [digit (b.toNat / 16), digit (b.toNat % 16)] := by
  simp only [List.mem_flatMap, List.mem_cons, List.not_mem_nil, or_false, not_exists, not_and,
    not_or]
  intro b _
  have hb := b.toNat_lt
  exact ⟨hdigit _ (by omega), hdigit _ (by omega)⟩

@[simp] theorem oneLine_hexOfBytes (bs : List UInt8) : OneLine (hexOfBytes bs) :=
  oneLine_ofList.2 (lineFeed_notMem_digits (by decide) bs)

@[simp] theorem oneLine_hexOfBytesUpper (bs : List UInt8) : OneLine (hexOfBytesUpper bs) :=
  oneLine_ofList.2 (lineFeed_notMem_digits (by decide) bs)

theorem oneLine_decimal (places n : Nat) : OneLine (decimal places n) := by
  have hpoint : OneLine "." := by decide
  unfold decimal
  dsimp only
  split
  · exact oneLine_repr n
  · simp [hpoint, oneLine_padLeft (show '0' ≠ '\n' by decide)]

@[simp] theorem oneLine_fixed (places : Nat) (x : Float) : OneLine (fixed places x) := by
  unfold fixed
  dsimp only
  rw [oneLine_append]
  refine ⟨?_, oneLine_decimal _ _⟩
  split <;> decide

end ImageTriage.Text
