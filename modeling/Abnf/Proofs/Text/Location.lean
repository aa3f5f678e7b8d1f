import Abnf.Proofs.Text.Assembled
import Abnf.Text.Location

/-!
# Lines and columns

A location is found by going over the characters before it one by one. Split into lines, the same
text says directly what a line and a column have to be: so many whole lines before, each with its
newline, and then so many characters of the next line. Exactly one location is that of a position
(`Location.marks_iff`).
-/

namespace Abnf.Text

variable {lines : List (List Char)} {line s text : List Char} {position n k : Nat}

/-- So many lines of a text, each with its newline. -/
def linesBefore (text : List Char) (n : Nat) : List Char :=
  ((splitLines text).take n).flatMap (· ++ ['\n'])

/-- Where the line starts that so many lines stand before. -/
def lineStart (text : List Char) (n : Nat) : Nat :=
  (linesBefore text n).length

namespace Location

variable {here : Location}

/-- A location is that of a position, read off the lines of the text. -/
structure Marks (text : List Char) (position : Nat) (here : Location) : Prop where
  line_pos : 1 ≤ here.line
  column_pos : 1 ≤ here.column
  /-- There is such a line, and the column is one of it or the one behind its last character. -/
  on_line : ∃ line, (splitLines text)[here.line - 1]? = some line ∧ here.column - 1 ≤ line.length
  /-- The lines before it and the characters before it on its line come to the position. -/
  position_eq : lineStart text (here.line - 1) + (here.column - 1) = position
  /-- What stands before the line has a newline for every line before it. -/
  count_eq : (text.take (lineStart text (here.line - 1))).count '\n' = here.line - 1

/-! ## Going over lines -/

theorem foldl_after_of_not_mem (h : '\n' ∉ s) (here : Location) :
    s.foldl after here = ⟨here.line, here.column + s.length⟩ := by
  induction s generalizing here with
  | nil => rfl
  | cons c s ih =>
    rw [List.mem_cons, not_or] at h
    rw [List.foldl_cons, ih h.2, after, if_neg (Ne.symm h.1), List.length_cons]
    simp only [Location.mk.injEq, true_and]
    omega

theorem foldl_after_lines (h : ∀ line ∈ lines, '\n' ∉ line) (n : Nat) :
    (lines.flatMap (· ++ ['\n'])).foldl after ⟨n, 1⟩ = ⟨n + lines.length, 1⟩ := by
  induction lines generalizing n with
  | nil => rfl
  | cons line lines ih =>
    rw [List.forall_mem_cons] at h
    rw [List.flatMap_cons, List.foldl_append, List.foldl_append, foldl_after_of_not_mem h.1,
      List.length_cons]
    change (lines.flatMap _).foldl after ⟨n + 1, 1⟩ = _
    rw [ih h.2, Nat.add_right_comm, Nat.add_assoc]

theorem count_lines (h : ∀ line ∈ lines, '\n' ∉ line) :
    (lines.flatMap (· ++ ['\n'])).count '\n' = lines.length := by
  induction lines with
  | nil => rfl
  | cons line lines ih =>
    rw [List.forall_mem_cons] at h
    rw [List.flatMap_cons, List.count_append, List.count_append, List.count_eq_zero_of_not_mem h.1,
      ih h.2, List.length_cons]
    exact Nat.add_comm ..

end Location

/-! ## Lines of a text -/

theorem joinLines_eq_of_getElem? (h : lines[n]? = some line) :
    ∃ rest, joinLines lines = (lines.take n).flatMap (· ++ ['\n']) ++ (line ++ rest) := by
  induction lines generalizing n with
  | nil => cases h
  | cons first lines ih =>
    -- the last line is the one without a newline behind it
    by_cases hlines : lines = []
    · subst hlines
      obtain ⟨rfl, rfl⟩ : n = 0 ∧ first = line := by
        cases n with
        | zero => exact ⟨rfl, Option.some.inj h⟩
        | succ n => cases h
      exact ⟨[], (List.append_nil _).symm⟩
    · rw [joinLines_cons first hlines]
      cases n with
      | zero =>
        cases h
        exact ⟨_, rfl⟩
      | succ n =>
        obtain ⟨rest, hrest⟩ := ih h
        exact ⟨rest, by simp [hrest]⟩

theorem take_lineStart (h : (splitLines text)[n]? = some line) (hk : k ≤ line.length) :
    text.take (lineStart text n + k) = linesBefore text n ++ line.take k := by
  obtain ⟨rest, hrest⟩ := joinLines_eq_of_getElem? h
  rw [joinLines_splitLines] at hrest
  change text = linesBefore text n ++ _ at hrest
  rw [lineStart]
  generalize linesBefore text n = before at hrest ⊢
  rw [hrest, List.take_length_add_append, List.take_append_of_le_length hk]

/-- Every position is one of a line. -/
theorem exists_getElem?_of_le_length (hlines : lines ≠ [])
    (h : position ≤ (joinLines lines).length) :
    ∃ n line k, lines[n]? = some line ∧ k ≤ line.length ∧
      ((lines.take n).flatMap (· ++ ['\n'])).length + k = position := by
  induction lines generalizing position with
  | nil => exact absurd rfl hlines
  | cons line lines ih =>
    -- behind the first line and its newline, the position is one of the lines that follow
    by_cases hle : position ≤ line.length
    · exact ⟨0, line, position, rfl, hle, Nat.zero_add _⟩
    · by_cases hnil : lines = []
      · subst hnil
        exact absurd h hle
      · rw [joinLines_cons line hnil, List.length_append, List.length_cons] at h
        have hrest : position - (line.length + 1) ≤ (joinLines lines).length := by omega
        obtain ⟨n, found, k, hn, hk, hsum⟩ := ih hnil hrest
        refine ⟨n + 1, found, k, hn, hk, ?_⟩
        rw [List.take_succ_cons, List.flatMap_cons, List.length_append, List.length_append,
          List.length_singleton]
        omega

/-! ## The location of a position -/

namespace Location

variable {here : Location}

theorem newline_not_mem_take (text : List Char) (n : Nat) :
    ∀ line ∈ (splitLines text).take n, '\n' ∉ line :=
  fun line hline => newline_not_mem_splitLines text line (List.mem_of_mem_take hline)

theorem Marks.eq_ofPosition (h : Marks text position here) : here = ofPosition text position := by
  obtain ⟨line, hline, hcolumn⟩ := h.on_line
  have hnewline : '\n' ∉ line := newline_not_mem_splitLines text line (List.mem_of_getElem? hline)
  have hlength : ((splitLines text).take (here.line - 1)).length = here.line - 1 :=
    List.length_take_of_le (List.getElem?_eq_some_iff.mp hline).1.le
  rw [ofPosition, ← h.position_eq, take_lineStart hline hcolumn, List.foldl_append, linesBefore,
    start, foldl_after_lines (newline_not_mem_take text _),
    foldl_after_of_not_mem fun hmem => hnewline (List.mem_of_mem_take hmem), hlength,
    List.length_take_of_le hcolumn]
  have := h.line_pos
  have := h.column_pos
  rw [show 1 + (here.line - 1) = here.line by omega,
    show 1 + (here.column - 1) = here.column by omega]

theorem exists_marks (h : position ≤ text.length) : ∃ here, Marks text position here := by
  rw [← joinLines_splitLines text] at h
  obtain ⟨n, line, k, hline, hk, hsum⟩ := exists_getElem?_of_le_length (splitLines_ne_nil text) h
  refine ⟨⟨n + 1, k + 1⟩, Nat.le_add_left .., Nat.le_add_left .., ⟨line, hline, hk⟩, hsum, ?_⟩
  have hbefore := take_lineStart hline (Nat.zero_le _)
  rw [Nat.add_zero, List.take_zero, List.append_nil] at hbefore
  rw [Nat.add_sub_cancel, hbefore, linesBefore, count_lines (newline_not_mem_take text n)]
  exact List.length_take_of_le (List.getElem?_eq_some_iff.mp hline).1.le

/-- The location of a position is the one that the lines of the text say. -/
theorem marks_iff (h : position ≤ text.length) :
    Marks text position here ↔ here = ofPosition text position := by
  refine ⟨Marks.eq_ofPosition, ?_⟩
  rintro rfl
  obtain ⟨here, hhere⟩ := exists_marks h
  exact hhere.eq_ofPosition ▸ hhere

end Location

end Abnf.Text
