import ImageTriage.Text.Blank
import ImageTriage.Text.Pieces

/-!
# Pieces and cores of a text

`pieces` cuts a text at its separators and `trim` takes the blanks off its ends. Both are described
here by where their results stand in the text: a piece reaches from one separator or end of the text
to the next (`mem_pieces_iff`), and a core stands between blanks and has none at its own ends
(`isCore_iff`).
-/

namespace ImageTriage.Text

/-! ## Pieces -/

section Pieces

variable {separator : Char} {xs ys piece text : List Char}

theorem pieces_of_notMem (h : separator ∉ xs) : pieces separator xs = [xs] := by
  induction xs with
  | nil => rfl
  | cons x xs ih =>
    rw [List.mem_cons, not_or] at h
    rw [pieces, ih h.2]
    exact if_neg (Ne.symm h.1)

theorem pieces_append_separator :
    pieces separator (xs ++ separator :: ys) = pieces separator xs ++ pieces separator ys := by
  induction xs with
  | nil =>
    cases hpieces : pieces separator ys with
    | nil => exact absurd hpieces (pieces_ne_nil separator ys)
    | cons piece rest => simp [pieces, hpieces]
  | cons x xs ih =>
    rw [List.cons_append, pieces, pieces, ih]
    cases hpieces : pieces separator xs with
    | nil => exact absurd hpieces (pieces_ne_nil separator xs)
    | cons piece rest =>
      rw [List.cons_append]
      dsimp only
      split <;> rfl

theorem notMem_of_mem_pieces (h : piece ∈ pieces separator text) : separator ∉ piece := by
  induction text generalizing piece with
  | nil =>
    rw [pieces, List.mem_singleton] at h
    rw [h]
    exact List.not_mem_nil
  | cons x xs ih =>
    cases hpieces : pieces separator xs with
    | nil => exact absurd hpieces (pieces_ne_nil separator xs)
    | cons first rest =>
      rw [hpieces] at ih
      rw [pieces, hpieces] at h
      dsimp only at h
      split at h
      · rcases List.mem_cons.1 h with rfl | h
        · exact List.not_mem_nil
        · exact ih h
      · next hx =>
        rcases List.mem_cons.1 h with rfl | h
        · rw [List.mem_cons, not_or]
          exact ⟨Ne.symm hx, ih List.mem_cons_self⟩
        · exact ih (List.mem_cons_of_mem _ h)

/-- A piece holds no separator. Before it the text begins or there is a separator, and behind it the
text ends or there is a separator. -/
def IsPiece (separator : Char) (piece text : List Char) : Prop :=
  separator ∉ piece ∧ ∃ before after, text = before ++ piece ++ after ∧
    (∀ c ∈ before.getLast?, c = separator) ∧ ∀ c ∈ after.head?, c = separator

/-- What stands between separators or ends of a joined text. -/
theorem exists_join_eq {ps : List (List Char)} (h : piece ∈ ps) :
    ∃ before after, join separator ps = before ++ piece ++ after ∧
      (∀ c ∈ before.getLast?, c = separator) ∧ ∀ c ∈ after.head?, c = separator := by
  induction ps with
  | nil => exact (List.not_mem_nil h).elim
  | cons first rest ih =>
    cases rest with
    | nil =>
      obtain rfl := List.mem_singleton.1 h
      exact ⟨[], [], by simp [join], by simp, by simp⟩
    | cons second rest =>
      rcases List.mem_cons.1 h with rfl | h
      · exact ⟨[], separator :: join separator (second :: rest), by simp [join], by simp, by simp⟩
      · obtain ⟨before, after, hjoin, hbefore, hafter⟩ := ih h
        refine ⟨first ++ separator :: before, after, ?_, ?_, hafter⟩
        · simp [join, hjoin]
        · intro c hc
          rw [List.getLast?_append, List.getLast?_cons, Option.some_or, Option.mem_def,
            Option.some_inj] at hc
          cases hlast : before.getLast? with
          | none => simpa [hlast] using hc.symm
          | some last =>
            rw [← hc, hlast]
            exact hbefore last hlast

theorem mem_pieces_iff : piece ∈ pieces separator text ↔ IsPiece separator piece text := by
  constructor
  · intro h
    obtain ⟨before, after, hjoin, hends⟩ := exists_join_eq h
    rw [join_pieces] at hjoin
    exact ⟨notMem_of_mem_pieces h, before, after, hjoin, hends⟩
  · rintro ⟨hpiece, before, after, rfl, hbefore, hafter⟩
    have hrest : piece ∈ pieces separator (piece ++ after) := by
      cases after with
      | nil => simp [pieces_of_notMem hpiece]
      | cons c after =>
        obtain rfl := hafter c rfl
        simp [pieces_append_separator, pieces_of_notMem hpiece]
    obtain rfl | ⟨before, c, rfl⟩ := List.eq_nil_or_concat before
    · exact hrest
    · obtain rfl := hbefore c (by simp)
      rw [List.concat_eq_append, List.append_assoc, List.append_assoc, List.singleton_append,
        pieces_append_separator]
      exact List.mem_append_right _ hrest

end Pieces

/-! ## Cores -/

section Cores

variable {core text xs ys : List Char}

/-- A core stands between blanks, and neither begins nor ends with one. -/
def IsCore (core text : List Char) : Prop :=
  ∃ before after, text = before ++ core ++ after ∧ (∀ c ∈ before, isBlank c) ∧
    (∀ c ∈ after, isBlank c) ∧ (∀ c ∈ core.head?, ¬isBlank c) ∧ ∀ c ∈ core.getLast?, ¬isBlank c

theorem not_isBlank_of_head? {c : Char} (h : c ∈ (text.dropWhile isBlank).head?) : ¬isBlank c := by
  have hhead := List.head?_dropWhile_not isBlank text
  rw [Option.mem_def.1 h] at hhead
  rw [hhead]
  exact Bool.false_ne_true

theorem trim_append_left (h : ∀ c ∈ xs, isBlank c) : trim (xs ++ ys) = trim ys := by
  rw [trim, List.dropWhile_append_of_pos h]
  rfl

theorem trim_append_right (h : ∀ c ∈ ys, isBlank c) : trim (xs ++ ys) = trim xs := by
  have hys : ys.dropWhile isBlank = [] :=
    (congrArg _ (List.append_nil ys).symm).trans (List.dropWhile_append_of_pos h)
  rw [trim, List.dropWhile_append]
  split
  · next hempty =>
    rw [hys, trim, List.isEmpty_iff.1 hempty]
  · rw [List.reverse_append, List.dropWhile_append_of_pos (by simpa using h)]
    rfl

theorem isCore_trim (text : List Char) : IsCore (trim text) text := by
  let kept := text.dropWhile isBlank
  have hbefore : text = text.takeWhile isBlank ++ kept := List.takeWhile_append_dropWhile.symm
  have hafter : kept = trim text ++ (kept.reverse.takeWhile isBlank).reverse := by
    rw [trim, ← List.reverse_append, List.takeWhile_append_dropWhile, List.reverse_reverse]
  refine ⟨text.takeWhile isBlank, (kept.reverse.takeWhile isBlank).reverse, ?_, ?_, ?_, ?_, ?_⟩
  · rw [List.append_assoc, ← hafter]
    exact hbefore
  · exact List.all_eq_true.1 List.all_takeWhile
  · intro c hc
    exact List.all_eq_true.1 List.all_takeWhile c (List.mem_reverse.1 hc)
  · intro c hc
    have hkept : c ∈ kept.head? := by
      rw [hafter, List.head?_append, Option.mem_def.1 hc]
      rfl
    exact not_isBlank_of_head? hkept
  · intro c hc
    rw [trim, List.getLast?_reverse] at hc
    exact not_isBlank_of_head? hc

theorem isCore_iff : IsCore core text ↔ core = trim text := by
  constructor
  · rintro ⟨before, after, rfl, hbefore, hafter, hhead, hlast⟩
    rw [trim_append_right hafter, trim_append_left hbefore, trim_eq_self hhead hlast]
  · rintro rfl
    exact isCore_trim text

end Cores

end ImageTriage.Text
