import Abnf.Proofs.Text.Margin

/-!
# Texts that are assembled already

A text is stripped of the margin of its lines and of the white space around it before it is read.
Which texts does this leave alone? Those that start and end with something else than white space,
and have no line of spaces and tabs only (`strip_dedent_eq_self_iff`). The last is a question about
one line at a time, so it stays so when a piece of text that has something on its only line is put
in (`Tidy.left`, `Tidy.right`, `Tidy.glue`).
-/

namespace Abnf.Text

variable {s t u v : List Char} {lines : List (List Char)} {line : List Char} {c : Char}

/-! ## Lines -/

theorem joinLines_splitLines (s : List Char) : joinLines (splitLines s) = s := by
  induction s with
  | nil => rfl
  | cons c s ih =>
    rw [splitLines]
    split
    · rename_i hc
      rw [joinLines_cons [] (splitLines_ne_nil s), ih, hc]
      rfl
    · cases hlines : splitLines s with
      | nil => exact absurd hlines (splitLines_ne_nil s)
      | cons line lines =>
        rw [hlines] at ih
        rw [← ih]
        cases lines <;> rfl

theorem splitLines_joinLines (hlines : lines ≠ []) (h : ∀ line ∈ lines, '\n' ∉ line) :
    splitLines (joinLines lines) = lines := by
  induction lines with
  | nil => exact absurd rfl hlines
  | cons line lines ih =>
    rw [List.forall_mem_cons] at h
    by_cases hnil : lines = []
    · subst hnil
      exact splitLines_of_not_mem h.1
    · rw [joinLines_cons line hnil, splitLines_append, splitLines_of_not_mem h.1, ih hnil h.2]
      rfl

/-- Where two texts meet, the last line of the first goes on with the first line of the second. -/
theorem splitLines_append_eq (s t : List Char) : splitLines (s ++ t) = (splitLines s).dropLast ++
    ((splitLines s).getLastD [] ++ (splitLines t).headD []) :: (splitLines t).tail := by
  induction s with
  | nil =>
    obtain ⟨first, after, ht⟩ := List.exists_cons_of_ne_nil (splitLines_ne_nil t)
    rw [List.nil_append, ht]
    rfl
  | cons c s ih =>
    obtain ⟨first, after, hs⟩ := List.exists_cons_of_ne_nil (splitLines_ne_nil s)
    rw [hs] at ih
    by_cases hc : c = '\n'
    · rw [List.cons_append, splitLines, splitLines, if_pos hc, if_pos hc, ih, hs]
      rfl
    · rw [List.cons_append, splitLines, splitLines, if_neg hc, if_neg hc, ih, hs]
      cases after <;> rfl

/-! ## Tidy texts -/

/-- A line that has more than spaces and tabs on it, or nothing. -/
def TidyLine (line : List Char) : Prop := line.all isIndent → line = []

/-- No line has spaces and tabs on it and nothing else. -/
def Tidy (s : List Char) : Prop := ∀ line ∈ splitLines s, TidyLine line

/-- A piece of one line that has something on it. -/
structure Solid (s : List Char) : Prop where
  newline_not_mem : '\n' ∉ s
  not_blank : ¬ s.all isIndent

theorem Solid.tidyLine (h : Solid v) (before after : List Char) :
    TidyLine (before ++ (v ++ after)) := by
  intro hall
  simp only [List.all_append, Bool.and_eq_true] at hall
  exact absurd hall.2.1 h.not_blank

/-- Before a solid piece all lines but the last are left to be tidy. -/
theorem Solid.tidy_append_left (h : Solid v) (s : List Char) :
    Tidy (s ++ v) ↔ ∀ line ∈ (splitLines s).dropLast, TidyLine line := by
  have hmeet := h.tidyLine ((splitLines s).getLastD []) []
  rw [List.append_nil] at hmeet
  rw [Tidy, splitLines_append_eq, splitLines_of_not_mem h.newline_not_mem, List.forall_mem_append]
  exact and_iff_left (List.forall_mem_singleton.mpr hmeet)

theorem Solid.splitLines_append (h : Solid v) (t : List Char) :
    splitLines (v ++ t) = (v ++ (splitLines t).headD []) :: (splitLines t).tail := by
  rw [splitLines_append_eq, splitLines_of_not_mem h.newline_not_mem]
  rfl

/-- Behind a solid piece all lines but the first are left to be tidy. -/
theorem Solid.tidy_append_right (h : Solid v) (t : List Char) :
    Tidy (v ++ t) ↔ ∀ line ∈ (splitLines t).tail, TidyLine line := by
  rw [Tidy, h.splitLines_append, List.forall_mem_cons]
  exact and_iff_right (h.tidyLine [] _)

/-- What stands before a solid piece is tidy there if it was so before something else. -/
theorem Tidy.left (h : Tidy (s ++ t)) (hv : Solid v) : Tidy (s ++ v) := by
  rw [Tidy, splitLines_append_eq, List.forall_mem_append] at h
  exact (hv.tidy_append_left s).mpr h.1

/-- What stands behind a solid piece is tidy there if it was so behind something else. -/
theorem Tidy.right (h : Tidy (s ++ t)) (hv : Solid v) : Tidy (v ++ t) := by
  rw [Tidy, splitLines_append_eq, List.forall_mem_append, List.forall_mem_cons] at h
  exact (hv.tidy_append_right t).mpr h.2.2

/-- Tidy texts that share a solid piece are tidy together. -/
theorem Tidy.glue (hs : Tidy (s ++ v)) (hv : Solid v) (ht : Tidy (v ++ t)) :
    Tidy (s ++ (v ++ t)) := by
  rw [Tidy, splitLines_append_eq, hv.splitLines_append, List.forall_mem_append,
    List.forall_mem_cons]
  exact ⟨(hv.tidy_append_left s).mp hs, hv.tidyLine _ _, (hv.tidy_append_right t).mp ht⟩

/-! ## Assembling changes nothing -/

theorem Tidy.dedent_eq (h : Tidy s) (hs : StartsFull s) : dedent s = s := by
  have hlines : (splitLines s).map (dedentLine 0) = splitLines s := by
    refine (List.map_congr_left fun line hline => ?_).trans (List.map_id _)
    rw [dedentLine]
    split
    · rename_i hall
      exact (h line hline hall).symm
    · rfl
  rw [dedent_of_startsFull hs, hlines, joinLines_splitLines]

/-- The margin leaves no line of spaces and tabs. -/
theorem tidy_dedent (hs : StartsFull s) : Tidy (dedent s) := by
  have hnewline : ∀ line ∈ (splitLines s).map (dedentLine 0), '\n' ∉ line := by
    refine List.forall_mem_map.mpr fun line hline hmem => newline_not_mem_splitLines s line hline ?_
    rw [dedentLine] at hmem
    split at hmem
    · cases hmem
    · exact hmem
  have hlines : (splitLines s).map (dedentLine 0) ≠ [] := by simpa using splitLines_ne_nil s
  rw [Tidy, dedent_of_startsFull hs, splitLines_joinLines hlines hnewline]
  refine List.forall_mem_map.mpr fun line _ hall => ?_
  rw [dedentLine] at hall ⊢
  split at hall
  · rename_i hblank
    exact if_pos hblank
  · rename_i hcontent
    exact absurd hall hcontent

theorem head?_strip (s : List Char) : ∀ c ∈ (strip s).head?, ¬ isSpace c := by
  intro c hc
  obtain ⟨rest, hrest⟩ : strip s <+: s.dropWhile isSpace := List.rdropWhile_prefix _ _
  have hhead := List.head?_dropWhile_not isSpace s
  rw [← hrest, List.head?_append, Option.mem_def.mp hc] at hhead
  simpa using hhead

/-- Which texts are left alone by assembling. -/
theorem strip_dedent_eq_self_iff (hne : s ≠ []) : strip (dedent s) = s ↔
    StartsFull s ∧ Tidy s ∧ ∀ c ∈ s.getLast?, ¬ isSpace c := by
  constructor
  · intro h
    have hfull : StartsFull s := by
      obtain ⟨c, rest, rfl⟩ := List.exists_cons_of_ne_nil hne
      have hhead := head?_strip (dedent (c :: rest))
      rw [h] at hhead
      exact ⟨c, rfl, hhead c rfl⟩
    rw [strip_eq_trimEnd (startsFull_dedent hfull).not_isSpace] at h
    have hdropped : (dedent s).rdropWhile isSpace = s := h
    have hlast : ¬ isSpace (s.getLast hne) := by
      have hleft : (dedent s).rdropWhile isSpace ≠ [] := by rwa [hdropped]
      have := List.rdropWhile_last_not isSpace (dedent s) hleft
      simpa only [hdropped] using this
    refine ⟨hfull, ?_, fun c hc => ?_⟩
    · -- only white space is lost at the end, so the last line ends in the last character either way
      obtain ⟨rest, hrest⟩ : s <+: dedent s := by
        conv_lhs => rw [← hdropped]
        exact List.rdropWhile_prefix _ _
      obtain ⟨hindent, hnewline⟩ := not_isIndent_of_not_isSpace hlast
      have hsolid : Solid [s.getLast hne] :=
        ⟨by simpa using Ne.symm hnewline, by simp [hindent]⟩
      have htidy := tidy_dedent hfull
      rw [← hrest, ← List.dropLast_append_getLast hne, List.append_assoc] at htidy
      have := htidy.left hsolid
      rwa [List.dropLast_append_getLast] at this
    · rw [List.getLast?_eq_some_getLast hne, Option.mem_some_iff] at hc
      exact hc ▸ hlast
  · rintro ⟨hfull, htidy, hlast⟩
    rw [htidy.dedent_eq hfull, strip_eq_trimEnd hfull.not_isSpace, trimEnd_eq_self hlast]

theorem dedent_eq_self (h : strip (dedent s) = s) : dedent s = s := by
  by_cases hne : s = []
  · subst hne
    rfl
  · obtain ⟨hfull, htidy, -⟩ := (strip_dedent_eq_self_iff hne).mp h
    exact htidy.dedent_eq hfull

/--
A piece of a text that is assembled already, put in another place of it between solid pieces, leaves
it assembled. It stands for something there, so the lines before and behind are as full as they
were.
-/
theorem strip_dedent_spliced {l m r x piece y first last : List Char} (hl : l ≠ [])
    (hfirst : Solid first) (hlast : Solid last) (hend : ∀ c ∈ last.getLast?, ¬ isSpace c)
    (h : strip (dedent (l ++ (m ++ r))) = l ++ (m ++ r))
    (hpiece : l ++ (m ++ r) = x ++ (piece ++ y)) :
    strip (dedent (l ++ (first ++ (piece ++ (last ++ r))))) =
      l ++ (first ++ (piece ++ (last ++ r))) := by
  obtain ⟨hfull, htidy, hspace⟩ :=
    (strip_dedent_eq_self_iff (List.append_ne_nil_of_left_ne_nil hl _)).mp h
  refine (strip_dedent_eq_self_iff (List.append_ne_nil_of_left_ne_nil hl _)).mpr ⟨?_, ?_, ?_⟩
  · obtain ⟨c, hc, hcspace⟩ := hfull
    obtain ⟨d, l, rfl⟩ := List.exists_cons_of_ne_nil hl
    exact ⟨c, hc, hcspace⟩
  · have hbefore : Tidy (l ++ first) := htidy.left hfirst
    have hbehind : Tidy (last ++ r) := by
      rw [← List.append_assoc] at htidy
      exact htidy.right hlast
    have hinside : Tidy (first ++ (piece ++ last)) := by
      rw [hpiece] at htidy
      have := htidy.right hfirst
      rw [← List.append_assoc] at this ⊢
      exact this.left hlast
    -- the pieces on either side of a solid one have no line in common
    have hboth : Tidy (l ++ (first ++ piece) ++ last) := by
      simpa using hbefore.glue hfirst hinside
    simpa using hboth.glue hlast hbehind
  · rcases List.eq_nil_or_concat r with rfl | ⟨r, d, rfl⟩
    · rcases List.eq_nil_or_concat last with rfl | ⟨last, d, rfl⟩
      · exact absurd (by decide) hlast.not_blank
      · simpa [List.getLast?_append] using hend
    · simpa [List.getLast?_append] using hspace

end Abnf.Text
