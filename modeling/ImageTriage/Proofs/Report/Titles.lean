import ImageTriage.Proofs.Report.Accounting
import ImageTriage.Proofs.Text.Lines

/-!
# The titles in a report

Whoever reads a report finds its blocks by their titles: a title is a line with a rule of `=` under
it (`titlesIn`). Every line of a block is indented, so that no line of one block is taken for a
rule. A text of the image with line feeds in it takes more than one line, however, and those after
the first begin as the image likes.
-/

namespace ImageTriage

open Text (OneLine lines)

namespace Report

/-! ## Titles and rules -/

/-- A line of nothing but `=`. -/
def IsRule (line : String) : Prop := line ≠ "" ∧ ∀ c ∈ line.toList, c = '='

instance (line : String) : Decidable (IsRule line) :=
  decidable_of_iff (line ≠ "" ∧ line.toList.all (· == '=')) (by simp [IsRule])

/-- The lines that a rule follows. -/
def titles : List String → List String
  | line :: next :: rest =>
    if IsRule next then line :: titles (next :: rest) else titles (next :: rest)
  | _ => []

/-- The titles of the blocks in a text. -/
def titlesIn (text : String) : List String := titles (lines text)

/-- Lines of which the first is no rule. -/
def OpensPlain (ls : List String) : Prop := ∃ line rest, ls = line :: rest ∧ ¬ IsRule line

theorem titles_append {xs ys : List String} (h : OpensPlain ys) :
    titles (xs ++ ys) = titles xs ++ titles ys := by
  obtain ⟨y, rest, rfl, hy⟩ := h
  induction xs with
  | nil => rfl
  | cons x xs ih =>
    cases xs with
    | nil => simp [titles, hy]
    | cons next xs =>
      simp only [List.cons_append, titles] at ih ⊢
      rw [ih]
      split <;> rfl

/-- Stretches of lines that open plain have their titles apart from each other. -/
theorem titles_flatten {chunks : List (List String)} (h : ∀ chunk ∈ chunks, OpensPlain chunk) :
    titles chunks.flatten = chunks.flatMap titles := by
  induction chunks with
  | nil => rfl
  | cons chunk rest ih =>
    rw [List.forall_mem_cons] at h
    rw [List.flatten_cons, List.flatMap_cons, ← ih h.2]
    cases rest with
    | nil => simp [titles]
    | cons next rest =>
      obtain ⟨line, behind, rfl, hline⟩ := h.2 next (by simp)
      exact titles_append ⟨line, behind ++ rest.flatten, rfl, hline⟩

/-- Lines have no title exactly if no line after the first is a rule. -/
theorem titles_eq_nil_iff {ls : List String} :
    titles ls = [] ↔ ∀ line ∈ ls.tail, ¬ IsRule line := by
  induction ls with
  | nil => simp [titles]
  | cons line rest ih =>
    cases rest with
    | nil => simp [titles]
    | cons next rest =>
      rw [titles, List.tail_cons, List.forall_mem_cons]
      split
      case isTrue hrule => simp [hrule]
      case isFalse hrule => simpa [hrule] using ih

theorem titlesIn_of_oneLine {text : String} (h : OneLine text) : titlesIn text = [] := by
  rw [titlesIn, Text.lines_of_oneLine h, titles]
  simp

/-! ## Blocks -/

/-- A line of a block: at the first level, or further in. -/
def Indented (line : String) : Prop := ∃ text, line = item text

theorem opensPlain_lines {line : String} (h : Indented line) : OpensPlain (lines line) := by
  obtain ⟨text, rfl⟩ := h
  have hlist : (item text).toList = ' ' :: ' ' :: text.toList := by simp [item]
  rw [lines, hlist, Text.pieces]
  cases hpieces : Text.pieces '\n' (' ' :: text.toList) with
  | nil => exact absurd hpieces (Text.pieces_ne_nil _ _)
  | cons piece rest =>
    refine ⟨_, _, rfl, fun hrule => ?_⟩
    have hblank := hrule.2 ' ' (by simp)
    exact absurd hblank (by decide)

namespace Block

/-- The line under the title. -/
def rule (b : Block) : String := String.ofList (List.replicate b.title.utf8ByteSize '=')

/-- A block as blocks should be. -/
structure IsRegular (b : Block) : Prop where
  oneLine_title : OneLine b.title
  title_ne_empty : b.title ≠ ""
  not_isRule_title : ¬ IsRule b.title
  indented : ∀ line ∈ b.lines, Indented line

/-- The lines of the text of a block, by the lines that it was made of. -/
def chunks (b : Block) : List (List String) :=
  [b.title, b.rule] :: b.lines.map Text.lines ++ [[""]]

variable {b : Block}

theorem oneLine_rule (b : Block) : OneLine b.rule := by
  simp [rule, List.mem_replicate]

theorem isRule_rule (h : b.title ≠ "") : IsRule b.rule := by
  constructor
  · intro hempty
    have hlength := congrArg String.length hempty
    rw [rule, String.length_ofList, List.length_replicate, String.length_empty,
      String.utf8ByteSize_eq_zero_iff] at hlength
    exact h hlength
  · intro c hc
    rw [rule, String.toList_ofList] at hc
    exact List.eq_of_mem_replicate hc

theorem IsRegular.opensPlain (hb : b.IsRegular) : ∀ chunk ∈ b.chunks, OpensPlain chunk := by
  intro chunk hchunk
  simp only [chunks, List.cons_append, List.mem_cons, List.mem_append, List.mem_map,
    List.not_mem_nil, or_false] at hchunk
  rcases hchunk with rfl | ⟨line, hline, rfl⟩ | rfl
  · exact ⟨_, _, rfl, hb.not_isRule_title⟩
  · exact opensPlain_lines (hb.indented line hline)
  · exact ⟨_, _, rfl, by decide⟩

/-- A block has its own title, and those that are in one of its lines. -/
theorem IsRegular.titles_chunks (hb : b.IsRegular) :
    b.chunks.flatMap titles = b.title :: b.lines.flatMap titlesIn := by
  have hrule := isRule_rule hb.title_ne_empty
  simp only [chunks, List.cons_append, List.flatMap_cons, List.flatMap_append, List.flatMap_map,
    List.flatMap_nil, titles, if_pos hrule, List.append_nil, List.nil_append]
  rfl

end Block

theorem lines_unlines_append (ls : List String) (text : String) :
    lines (unlines ls ++ text) = ls.flatMap lines ++ lines text := by
  induction ls with
  | nil => rw [unlines_nil, String.empty_append, List.flatMap_nil, List.nil_append]
  | cons line ls ih =>
    have hunlines : unlines (line :: ls) = line ++ "\n" ++ unlines ls := by
      rw [unlines, List.map_cons, String.join_cons, unlines]
    rw [hunlines, String.append_assoc, Text.lines_append_lineFeed, ih, List.flatMap_cons,
      List.append_assoc]

theorem lines_text_append {b : Block} (hb : b.IsRegular) (rest : String) :
    lines (b.text ++ rest) = b.chunks.flatten ++ lines rest := by
  have hheading : heading b.title = unlines [b.title, b.rule] := rfl
  have hend : ("\n" : String) = unlines [""] := by decide
  rw [Block.text, hheading, hend, String.append_assoc, String.append_assoc, lines_unlines_append,
    lines_unlines_append, lines_unlines_append]
  simp only [Block.chunks, List.flatMap_cons, List.flatMap_nil,
    Text.lines_of_oneLine hb.oneLine_title,
    Text.lines_of_oneLine b.oneLine_rule, Text.lines_of_oneLine (s := "") (by decide)]
  simp [List.flatMap_def]

/-- The titles in blocks one after the other: those of the blocks, and behind each those that are in
one of its lines. -/
theorem titlesIn_join {bs : List Block} (h : ∀ b ∈ bs, b.IsRegular) :
    titlesIn (String.join (bs.map Block.text)) =
      bs.flatMap fun b => b.title :: b.lines.flatMap titlesIn := by
  have hlines : ∀ bs : List Block, (∀ b ∈ bs, b.IsRegular) →
      lines (String.join (bs.map Block.text)) = (bs.flatMap Block.chunks ++ [[""]]).flatten := by
    intro bs h
    induction bs with
    | nil => rfl
    | cons b bs ih =>
      rw [List.forall_mem_cons] at h
      rw [List.map_cons, String.join_cons, lines_text_append h.1, ih h.2, List.flatMap_cons]
      simp only [List.flatten_append, List.append_assoc]
  have hopens : ∀ chunk ∈ bs.flatMap Block.chunks ++ [[""]], OpensPlain chunk := by
    intro chunk hchunk
    rw [List.mem_append, List.mem_flatMap, List.mem_singleton] at hchunk
    rcases hchunk with ⟨b, hb, hchunk⟩ | rfl
    · exact (h b hb).opensPlain chunk hchunk
    · exact ⟨_, _, rfl, by decide⟩
  rw [titlesIn, hlines bs h, titles_flatten hopens, List.flatMap_append, List.flatMap_assoc]
  simp only [List.flatMap_cons, List.flatMap_nil, titles, List.append_nil]
  rw [List.flatMap_def, List.flatMap_def, List.map_congr_left fun b hb => (h b hb).titles_chunks]

end Report

end ImageTriage
