/-!
# Text between separators

`pieces` cuts text at every separator, so there is one piece more than there are separators, and
pieces may be empty. `join_pieces` says that nothing is lost.
-/

namespace ImageTriage.Text

/-- The pieces of the text between separators. -/
def pieces (separator : Char) : List Char → List (List Char)
  | [] => [[]]
  | c :: cs =>
    match pieces separator cs with
    | [] => [[c]]
    | piece :: rest => if c = separator then [] :: piece :: rest else (c :: piece) :: rest

/-- The pieces with a separator between any two. -/
def join (separator : Char) : List (List Char) → List Char
  | [] => []
  | [piece] => piece
  | piece :: rest => piece ++ separator :: join separator rest

theorem pieces_ne_nil (separator : Char) (cs : List Char) : pieces separator cs ≠ [] := by
  cases cs with
  | nil => simp [pieces]
  | cons c cs =>
    unfold pieces
    split
    · simp
    · split <;> simp

theorem join_pieces (separator : Char) (cs : List Char) :
    join separator (pieces separator cs) = cs := by
  induction cs with
  | nil => rfl
  | cons c cs ih =>
    unfold pieces
    split
    · next h => exact absurd h (pieces_ne_nil separator cs)
    · next piece rest h =>
      rw [h] at ih
      split
      · next hc => simp [join, ih, hc]
      · cases rest <;> simp_all [join]

end ImageTriage.Text
