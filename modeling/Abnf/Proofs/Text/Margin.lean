import Abnf.Text.Margin
import Mathlib.Data.List.DropRight
import Mathlib.Data.List.Infix

/-!
# Margins and the ends of lines

What becomes of the margin of a text when its lines end in a carriage return and a newline instead
of a newline alone. The carriage return is content of its line, so a line of nothing but spaces and
tabs has a say in the margin that it did not have before. Where it says what the other lines say,
the margin is the same, and taking it away is the same before and after (`dedent_crlf`).
-/

namespace Abnf.Text

variable {lines : List (List Char)} {line p s t u v : List Char} {c : Char}

/-! ## Carriage returns before newlines -/

/-- A newline with a carriage return before it; any other character as it is. -/
def crlfChar (c : Char) : List Char := if c = '\n' then ['\r', '\n'] else [c]

theorem crlfChar_of_ne (h : c ≠ '\n') : crlfChar c = [c] := if_neg h

/-- A text with a carriage return before every newline. -/
def crlf (s : List Char) : List Char := s.flatMap crlfChar

/-- One newline becomes two characters, and nothing else changes. -/
theorem crlf_newline (s : List Char) : crlf ('\n' :: s) = '\r' :: '\n' :: crlf s := rfl

theorem crlf_cons (h : c ≠ '\n') (s : List Char) : crlf (c :: s) = c :: crlf s := by
  rw [crlf, List.flatMap_cons, crlfChar_of_ne h]
  rfl

theorem crlf_append (s t : List Char) : crlf (s ++ t) = crlf s ++ crlf t := List.flatMap_append

/-- A text of one line stays as it is. -/
theorem crlf_of_not_mem (h : '\n' ∉ s) : crlf s = s := by
  induction s with
  | nil => rfl
  | cons c s ih =>
    rw [List.mem_cons, not_or] at h
    rw [crlf_cons (Ne.symm h.1), ih h.2]

/-- White space at the start goes, whatever each of its characters is replaced with. -/
theorem dropWhile_flatMap {f : Char → List Char} (hspace : ∀ c, isSpace c → ∀ d ∈ f c, isSpace d)
    (hother : ∀ c, ¬ isSpace c → f c = [c]) (s : List Char) :
    (s.flatMap f).dropWhile isSpace = (s.dropWhile isSpace).flatMap f := by
  induction s with
  | nil => rfl
  | cons c s ih =>
    rw [List.flatMap_cons]
    by_cases hc : isSpace c
    · rw [List.dropWhile_append_of_pos (hspace c hc), ih, List.dropWhile_cons_of_pos hc]
    · rw [hother c hc, List.dropWhile_cons_of_neg hc, List.singleton_append,
        List.dropWhile_cons_of_neg hc, List.flatMap_cons, hother c hc, List.singleton_append]

/-- The carriage return is white space like the newline. -/
theorem strip_crlf (s : List Char) : strip (crlf s) = crlf (strip s) := by
  have hspace : ∀ c, isSpace c → ∀ d ∈ crlfChar c, isSpace d := by
    intro c hc
    rw [crlfChar]
    split
    · exact List.forall_mem_cons.mpr ⟨by decide, List.forall_mem_singleton.mpr (by decide)⟩
    · exact List.forall_mem_singleton.mpr hc
  have hother : ∀ c, ¬ isSpace c → crlfChar c = [c] := by
    intro c hc
    refine crlfChar_of_ne ?_
    rintro rfl
    exact hc (by decide)
  -- the other end is stripped from the reversed text, where the two characters are turned around
  have hback := @dropWhile_flatMap (List.reverse ∘ crlfChar)
    (fun c hc d hd => hspace c hc d (List.mem_reverse.mp hd))
    (fun c hc => by rw [Function.comp_apply, hother c hc]; rfl)
  have hflip : List.reverse ∘ List.reverse ∘ crlfChar = crlfChar :=
    funext fun c => List.reverse_reverse _
  rw [strip, crlf, dropWhile_flatMap hspace hother, List.reverse_flatMap, hback,
    List.reverse_flatMap, hflip]
  rfl

/-- What is left when white space at the ends is taken away was there. -/
theorem mem_of_mem_strip (h : c ∈ strip s) : c ∈ s := by
  have h := (List.dropWhile_suffix _).mem (List.mem_reverse.mp h)
  exact (List.dropWhile_suffix _).mem (List.mem_reverse.mp h)

/-! ## Lines -/

/-- Lines with a carriage return at the end of each but the last. -/
def endEach (lines : List (List Char)) : List (List Char) :=
  lines.dropLast.map (· ++ ['\r']) ++ lines.getLast?.toList

theorem endEach_cons (line : List Char) (h : lines ≠ []) :
    endEach (line :: lines) = (line ++ ['\r']) :: endEach lines := by
  cases lines with
  | nil => exact absurd rfl h
  | cons next lines => rfl

/-- Every text has a line. -/
theorem splitLines_ne_nil (s : List Char) : splitLines s ≠ [] := by
  cases s with
  | nil => exact nofun
  | cons c s =>
    rw [splitLines]
    split
    · exact nofun
    · split <;> exact nofun

/-- The carriage return comes to the line that the newline ends. -/
theorem splitLines_crlf (s : List Char) : splitLines (crlf s) = endEach (splitLines s) := by
  induction s with
  | nil => rfl
  | cons c s ih =>
    by_cases hc : c = '\n'
    · subst hc
      have hlines : splitLines ('\n' :: s) = [] :: splitLines s := rfl
      rw [hlines, endEach_cons _ (splitLines_ne_nil s), ← ih]
      rfl
    · -- the character goes to the first line, which is the last one too or not
      rw [crlf_cons hc, splitLines, splitLines, if_neg hc, if_neg hc, ih]
      cases hlines : splitLines s with
      | nil => exact absurd hlines (splitLines_ne_nil s)
      | cons line lines =>
        cases lines <;> rfl

/-- No line has a newline in it. -/
theorem newline_not_mem_splitLines (s : List Char) : ∀ line ∈ splitLines s, '\n' ∉ line := by
  induction s with
  | nil => simp [splitLines]
  | cons c s ih =>
    rw [splitLines]
    split
    · exact List.forall_mem_cons.mpr ⟨List.not_mem_nil, ih⟩
    · rename_i hc
      split
      · exact List.forall_mem_singleton.mpr (by simpa using Ne.symm hc)
      · rename_i line lines hlines
        rw [hlines, List.forall_mem_cons] at ih
        refine List.forall_mem_cons.mpr ⟨?_, ih.2⟩
        rw [List.mem_cons, not_or]
        exact ⟨Ne.symm hc, ih.1⟩

theorem endEach_ne_nil (h : lines ≠ []) : endEach lines ≠ [] := by
  cases lines with
  | nil => exact absurd rfl h
  | cons line lines => simp [endEach]

/-- A line, a newline and the other lines. -/
theorem joinLines_cons (line : List Char) (h : lines ≠ []) :
    joinLines (line :: lines) = line ++ '\n' :: joinLines lines := by
  cases lines with
  | nil => exact absurd rfl h
  | cons next lines => rfl

/-- Ending the lines in a carriage return puts one before every newline. -/
theorem joinLines_endEach (h : ∀ line ∈ lines, '\n' ∉ line) :
    joinLines (endEach lines) = crlf (joinLines lines) := by
  induction lines with
  | nil => rfl
  | cons line lines ih =>
    rw [List.forall_mem_cons] at h
    by_cases hlines : lines = []
    · subst hlines
      exact (crlf_of_not_mem h.1).symm
    · rw [endEach_cons line hlines, joinLines_cons _ (endEach_ne_nil hlines),
        joinLines_cons line hlines, ih h.2, crlf_append, crlf_newline, crlf_of_not_mem h.1,
        List.append_assoc]
      rfl

/-! ## Margins -/

/-- What two texts both start with is what their common start starts with. -/
theorem prefix_commonStart : p <+: commonStart s t ↔ p <+: s ∧ p <+: t := by
  cases p with
  | nil => simp
  | cons x p =>
    fun_induction commonStart s t generalizing x p with
    | case1 c s t ih =>
      rw [List.cons_prefix_cons, List.cons_prefix_cons, List.cons_prefix_cons]
      cases p with
      | nil => simp
      | cons y p =>
        rw [ih]
        tauto
    | case2 c s d t hne =>
      rw [List.cons_prefix_cons, List.cons_prefix_cons]
      refine ⟨nofun, ?_⟩
      rintro ⟨⟨rfl, -⟩, rfl, -⟩
      exact absurd rfl hne
    | case3 s t hnil =>
      -- one of the two is empty, and starts with nothing
      refine ⟨nofun, fun ⟨hs, ht⟩ => ?_⟩
      obtain ⟨s, rfl⟩ := hs
      obtain ⟨t, rfl⟩ := ht
      exact absurd rfl (hnil _ _ _ _ rfl)

/-- The same of any number of texts. -/
theorem prefix_foldl_commonStart (indents : List (List Char)) (indent : List Char) :
    p <+: indents.foldl commonStart indent ↔ p <+: indent ∧ ∀ t ∈ indents, p <+: t := by
  induction indents generalizing indent with
  | nil => simp
  | cons t indents ih =>
    rw [List.foldl_cons, ih, prefix_commonStart, List.forall_mem_cons, and_assoc]

/-- The margin is what all lines with content start with, as far as it is spaces and tabs. -/
theorem prefix_margin_iff (h : ∃ line ∈ lines, ¬ line.all isIndent) : p <+: margin lines ↔
    ∀ line ∈ lines, ¬ line.all isIndent → p <+: line.takeWhile isIndent := by
  have hmem (t : List Char) : t ∈ (lines.filter fun line => !line.all isIndent).map
      (·.takeWhile isIndent) ↔ ∃ line ∈ lines, ¬ line.all isIndent ∧
        line.takeWhile isIndent = t := by
    simp only [List.mem_map, List.mem_filter, Bool.not_eq_true', Bool.not_eq_true, and_assoc]
  rw [margin]
  split
  · -- there is a line with content, so the list of their indentations is not empty
    rename_i hnone
    obtain ⟨line, hline, hcontent⟩ := h
    have := (hmem _).mpr ⟨line, hline, hcontent, rfl⟩
    rw [hnone] at this
    cases this
  · rename_i indent indents hsome
    rw [prefix_foldl_commonStart, ← List.forall_mem_cons (p := fun t => p <+: t), ← hsome]
    simp only [hmem]
    grind

/-- Where no line has content there is no margin. -/
theorem margin_eq_nil (h : ∀ line ∈ lines, line.all isIndent) : margin lines = [] := by
  have hnone : (lines.filter fun line => !line.all isIndent) = [] := by
    rw [List.filter_eq_nil_iff]
    intro line hline
    simp only [h line hline, Bool.not_true, Bool.false_eq_true, not_false_eq_true]
  rw [margin, hnone]
  rfl

/--
Every line of nothing but spaces and tabs is the margin, and so nothing when the margin is taken
away. The last line, which no newline ends, may be anything.
-/
def Flush (lines : List (List Char)) : Prop :=
  ∀ line ∈ lines.dropLast, line.all isIndent → line = margin lines

instance (lines : List (List Char)) : Decidable (Flush lines) :=
  inferInstanceAs (Decidable (∀ line ∈ lines.dropLast, line.all isIndent → line = margin lines))

/-- The last line is as it was, the others end in a carriage return. -/
theorem mem_endEach : t ∈ endEach lines ↔
    (∃ line ∈ lines.dropLast, line ++ ['\r'] = t) ∨ t ∈ lines.getLast? := by
  rw [endEach, List.mem_append, List.mem_map, Option.mem_toList, Option.mem_def]

/-- A carriage return is content. -/
theorem not_all_isIndent_append (line : List Char) : ¬ (line ++ ['\r']).all isIndent := by
  rw [List.all_append]
  simp [isIndent]

/-- It does not add to the indentation of its line. -/
theorem takeWhile_append_return (line : List Char) :
    (line ++ ['\r']).takeWhile isIndent = line.takeWhile isIndent := by
  induction line with
  | nil => rfl
  | cons c line ih => rw [List.cons_append, List.takeWhile_cons, List.takeWhile_cons, ih]

/-- A line is the last or one of the others. -/
theorem mem_of_mem_dropLast_or (hlines : lines ≠ []) :
    line ∈ lines ↔ line ∈ lines.dropLast ∨ line ∈ lines.getLast? := by
  obtain ⟨init, last, rfl⟩ := List.eq_nil_or_concat lines |>.resolve_left hlines
  simp [eq_comm]

/-- With a line of content, the margins start with the same texts. -/
theorem prefix_margin_endEach_iff (hlines : lines ≠ []) (h : Flush lines)
    (hcontent : ∃ line ∈ lines, ¬ line.all isIndent) :
    p <+: margin (endEach lines) ↔ p <+: margin lines := by
  have hends : ∃ line ∈ endEach lines, ¬ line.all isIndent := by
    obtain ⟨line, hline, hall⟩ := hcontent
    rcases (mem_of_mem_dropLast_or hlines).mp hline with hline | hline
    · exact ⟨_, mem_endEach.mpr (.inl ⟨line, hline, rfl⟩), not_all_isIndent_append line⟩
    · exact ⟨_, mem_endEach.mpr (.inr hline), hall⟩
  rw [prefix_margin_iff hends]
  constructor
  · intro hp
    rw [prefix_margin_iff hcontent]
    intro line hline hall
    rcases (mem_of_mem_dropLast_or hlines).mp hline with hline | hline
    · rw [← takeWhile_append_return]
      exact hp _ (mem_endEach.mpr (.inl ⟨line, hline, rfl⟩)) (not_all_isIndent_append line)
    · exact hp _ (mem_endEach.mpr (.inr hline)) hall
  · intro hp t ht hall
    have hbare := (prefix_margin_iff hcontent).mp hp
    rcases mem_endEach.mp ht with ⟨line, hline, rfl⟩ | ht
    · rw [takeWhile_append_return]
      by_cases hblank : line.all isIndent
      · -- a blank line counts now that it ends in a carriage return: it is the margin itself
        rwa [List.takeWhile_eq_self_iff.mpr (List.all_eq_true.mp hblank), h line hline hblank]
      · exact hbare line ((mem_of_mem_dropLast_or hlines).mpr (.inl hline)) hblank
    · exact hbare t ((mem_of_mem_dropLast_or hlines).mpr (.inr ht)) hall

/-- Carriage returns leave the margin as it is, if the lines without content are flush with it. -/
theorem margin_endEach (hlines : lines ≠ []) (h : Flush lines) :
    margin (endEach lines) = margin lines := by
  by_cases hcontent : ∃ line ∈ lines, ¬ line.all isIndent
  · have hle := (prefix_margin_endEach_iff hlines h hcontent).mp List.prefix_rfl
    have hge := (prefix_margin_endEach_iff hlines h hcontent).mpr List.prefix_rfl
    exact hle.eq_of_length_le hge.length_le
  · -- without content there is no margin, and every line that ends is empty
    have hblank : ∀ line ∈ lines, line.all isIndent := by simpa using hcontent
    have hnone := margin_eq_nil hblank
    rw [hnone]
    by_cases hends : ∃ line ∈ endEach lines, ¬ line.all isIndent
    · obtain ⟨t, ht, hall⟩ := hends
      refine List.prefix_nil.mp ?_
      have hstart := (prefix_margin_iff ⟨t, ht, hall⟩).mp List.prefix_rfl t ht hall
      rcases mem_endEach.mp ht with ⟨line, hline, rfl⟩ | ht
      · have hempty := h line hline (hblank line ((mem_of_mem_dropLast_or hlines).mpr (.inl hline)))
        rw [hempty, hnone] at hstart
        exact hstart
      · exact absurd (hblank t ((mem_of_mem_dropLast_or hlines).mpr (.inr ht))) hall
    · exact margin_eq_nil (by simpa using hends)

/-- A line without the margin. -/
def dedentLine (width : Nat) (line : List Char) : List Char :=
  if line.all isIndent then [] else line.drop width

/-- Each line loses as many characters as the margin has. -/
theorem dedent_eq (s : List Char) : dedent s =
    joinLines ((splitLines s).map (dedentLine (margin (splitLines s)).length)) := rfl

/-- A line with content has the whole margin in front. -/
theorem length_margin_le (hline : line ∈ lines) (hall : ¬ line.all isIndent) :
    (margin lines).length ≤ line.length := by
  have hstart := (prefix_margin_iff ⟨line, hline, hall⟩).mp List.prefix_rfl line hline hall
  exact hstart.length_le.trans (List.takeWhile_prefix _).length_le

/-- Where blank lines are flush with the margin, it does not matter what ends the lines. -/
theorem dedent_crlf (h : Flush (splitLines s)) : dedent (crlf s) = crlf (dedent s) := by
  have hlines := splitLines_ne_nil s
  have hnewline := newline_not_mem_splitLines s
  rw [dedent_eq, dedent_eq, splitLines_crlf, margin_endEach hlines h]
  generalize splitLines s = lines at h hlines hnewline
  have hline : ∀ line ∈ lines.dropLast, dedentLine (margin lines).length (line ++ ['\r']) =
      dedentLine (margin lines).length line ++ ['\r'] := by
    intro line hline
    have hmem := (mem_of_mem_dropLast_or hlines).mpr (.inl hline)
    rw [dedentLine, if_neg (not_all_isIndent_append line), dedentLine]
    split
    · -- what is left of a blank line that is the margin is its carriage return
      rename_i hblank
      rw [← h line hline hblank, List.drop_append_of_le_length (Nat.le_refl _), List.drop_length]
    · rename_i hall
      rw [List.drop_append_of_le_length (length_margin_le hmem hall)]
  -- what is done to each line is done to each line that ends in a carriage return
  have hends : (endEach lines).map (dedentLine (margin lines).length) =
      endEach (lines.map (dedentLine (margin lines).length)) := by
    rw [endEach, endEach, List.map_append, List.map_map, ← List.map_dropLast, List.map_map,
      List.getLast?_map, Option.toList_map]
    rw [List.map_congr_left (f := _ ∘ _) hline]
    rfl
  rw [hends, joinLines_endEach]
  refine List.forall_mem_map.mpr fun line hline hmem => hnewline line hline ?_
  rw [dedentLine] at hmem
  split at hmem
  · cases hmem
  · exact List.mem_of_mem_drop hmem

/-- Every character of a line is one of the text. -/
theorem mem_of_mem_splitLines (hline : line ∈ splitLines s) (hc : c ∈ line) : c ∈ s := by
  induction s generalizing line with
  | nil =>
    obtain rfl := List.mem_singleton.mp hline
    cases hc
  | cons d s ih =>
    rw [splitLines] at hline
    split at hline
    · rcases List.mem_cons.mp hline with rfl | hline
      · cases hc
      · exact List.mem_cons_of_mem d (ih hline hc)
    · split at hline
      · obtain rfl := List.mem_singleton.mp hline
        exact List.mem_cons.mpr (.inl (List.mem_singleton.mp hc))
      · rename_i first lines hlines
        rw [hlines] at ih
        rcases List.mem_cons.mp hline with rfl | hline
        · rcases List.mem_cons.mp hc with rfl | hc
          · exact List.mem_cons_self
          · exact List.mem_cons_of_mem d (ih List.mem_cons_self hc)
        · exact List.mem_cons_of_mem d (ih (List.mem_cons_of_mem first hline) hc)

/-- Between lines come newlines and nothing else. -/
theorem mem_joinLines (h : c ∈ joinLines lines) : c = '\n' ∨ ∃ line ∈ lines, c ∈ line := by
  induction lines with
  | nil => cases h
  | cons line lines ih =>
    by_cases hlines : lines = []
    · subst hlines
      exact .inr ⟨line, List.mem_cons_self, h⟩
    · rw [joinLines_cons line hlines, List.mem_append, List.mem_cons] at h
      rcases h with h | h | h
      · exact .inr ⟨line, List.mem_cons_self, h⟩
      · exact .inl h
      · obtain hc | ⟨next, hnext, hc⟩ := ih h
        · exact .inl hc
        · exact .inr ⟨next, List.mem_cons_of_mem line hnext, hc⟩

/-- Nothing comes into a text when its margin is taken away, newlines apart. -/
theorem mem_of_mem_dedent (hc : c ∈ dedent s) (hnewline : c ≠ '\n') : c ∈ s := by
  rw [dedent_eq] at hc
  obtain ⟨_, hmem, hc⟩ := (mem_joinLines hc).resolve_left hnewline
  obtain ⟨line, hline, rfl⟩ := List.mem_map.mp hmem
  rw [dedentLine] at hc
  split at hc
  · cases hc
  · exact mem_of_mem_splitLines hline (List.mem_of_mem_drop hc)

/-! ## White space at the end -/

/-- A text without the white space at its end. -/
def trimEnd (s : List Char) : List Char := s.rdropWhile isSpace

/-- White space behind a text goes. -/
theorem trimEnd_append_of_space (h : ∀ c ∈ v, isSpace c) : trimEnd (u ++ v) = trimEnd u := by
  induction v using List.reverseRecOn with
  | nil => rw [List.append_nil]
  | append_singleton v c ih =>
    rw [List.forall_mem_append, List.forall_mem_singleton] at h
    rw [trimEnd, ← List.append_assoc, List.rdropWhile_concat_pos _ _ _ h.2]
    exact ih h.1

/-- Behind a text that is more than white space, only the white space of that one goes. -/
theorem trimEnd_append (h : ¬ ∀ c ∈ v, isSpace c) : trimEnd (u ++ v) = u ++ trimEnd v := by
  induction v using List.reverseRecOn with
  | nil => exact absurd (List.forall_mem_nil _) h
  | append_singleton v c ih =>
    rw [trimEnd, trimEnd, ← List.append_assoc]
    by_cases hc : isSpace c
    · rw [List.rdropWhile_concat_pos _ _ _ hc, List.rdropWhile_concat_pos _ _ _ hc]
      refine ih fun hall => h ?_
      exact List.forall_mem_append.mpr ⟨hall, List.forall_mem_singleton.mpr hc⟩
    · rw [List.rdropWhile_concat_neg _ _ _ hc, List.rdropWhile_concat_neg _ _ _ hc,
        List.append_assoc]

theorem trimEnd_eq_self (h : ∀ c ∈ s.getLast?, ¬ isSpace c) : trimEnd s = s :=
  List.rdropWhile_eq_self_iff.mpr fun hne => h _ (List.getLast_mem_getLast? hne)

theorem trimEnd_eq_nil (h : ∀ c ∈ s, isSpace c) : trimEnd s = [] := List.rdropWhile_eq_nil_iff.mpr h

/-- Where there is none at the start, white space goes from the end alone. -/
theorem strip_eq_trimEnd (h : ∀ c ∈ s.head?, ¬ isSpace c) : strip s = trimEnd s := by
  cases s with
  | nil => rfl
  | cons c s =>
    change List.rdropWhile isSpace (List.dropWhile isSpace (c :: s)) = _
    rw [List.dropWhile_cons_of_neg (h c rfl)]
    rfl

/-! ## Texts without a margin -/

/-- The first character of a text is there, and is no white space. -/
def StartsFull (s : List Char) : Prop := ∃ c ∈ s.head?, ¬ isSpace c

theorem StartsFull.not_isSpace (h : StartsFull s) : ∀ c ∈ s.head?, ¬ isSpace c := by
  obtain ⟨c, hc, hspace⟩ := h
  intro d hd
  obtain rfl := Option.mem_unique hc hd
  exact hspace

theorem StartsFull.append (h : StartsFull s) (t : List Char) : StartsFull (s ++ t) := by
  obtain ⟨c, hc, hspace⟩ := h
  exact ⟨c, List.mem_head?_append_of_mem_head? hc, hspace⟩

theorem StartsFull.not_forall_isSpace (h : StartsFull s) : ¬ ∀ c ∈ s, isSpace c := by
  obtain ⟨c, hc, hspace⟩ := h
  exact fun hall => hspace (hall c (List.mem_of_mem_head? hc))

/-- The first character is no white space and stays. -/
theorem StartsFull.trimEnd (h : StartsFull s) : StartsFull (trimEnd s) := by
  cases s with
  | nil => exact h
  | cons c s =>
    have hc := h.not_isSpace c rfl
    refine ⟨c, ?_, hc⟩
    -- it may be the only one that stays
    by_cases hs : ∀ d ∈ s, isSpace d
    · rw [← List.singleton_append, trimEnd_append_of_space hs]
      exact congrArg List.head? (List.rdropWhile_concat_neg isSpace [] c hc)
    · rw [← List.singleton_append, trimEnd_append hs]
      rfl

/-- A newline ends a line, wherever it is. -/
theorem splitLines_append (s t : List Char) :
    splitLines (s ++ '\n' :: t) = splitLines s ++ splitLines t := by
  induction s with
  | nil => rfl
  | cons c s ih =>
    by_cases hc : c = '\n'
    · subst hc
      exact congrArg ([] :: ·) ih
    · rw [List.cons_append, splitLines, splitLines, if_neg hc, if_neg hc, ih]
      cases hlines : splitLines s with
      | nil => exact absurd hlines (splitLines_ne_nil s)
      | cons line lines => rfl

/-- Lines behind lines, with a newline in between. -/
theorem joinLines_append {more : List (List Char)} (hlines : lines ≠ []) (hmore : more ≠ []) :
    joinLines (lines ++ more) = joinLines lines ++ '\n' :: joinLines more := by
  induction lines with
  | nil => exact absurd rfl hlines
  | cons line lines ih =>
    rw [List.cons_append, joinLines_cons line (List.append_ne_nil_of_right_ne_nil lines hmore)]
    by_cases hnil : lines = []
    · subst hnil
      rfl
    · rw [joinLines_cons line hnil, ih hnil, List.append_assoc]
      rfl

/-- The first line of a text starts as the text does. -/
theorem exists_splitLines (h : c ≠ '\n') (s : List Char) :
    ∃ line lines, splitLines (c :: s) = (c :: line) :: lines := by
  rw [splitLines, if_neg h]
  split
  · exact ⟨_, _, rfl⟩
  · exact ⟨_, _, rfl⟩

/-- What is no white space is no indentation and no newline. -/
theorem not_isIndent_of_not_isSpace (h : ¬ isSpace c) : isIndent c = false ∧ c ≠ '\n' := by
  refine ⟨?_, ?_⟩
  · rw [isIndent, Bool.or_eq_false_iff, decide_eq_false_iff_not, decide_eq_false_iff_not]
    constructor <;> (rintro rfl; exact h (by decide))
  · rintro rfl
    exact h (by decide)

/-- Where the first line has no indentation, no line loses any. -/
theorem margin_eq_nil_of_startsFull (h : StartsFull s) : margin (splitLines s ++ lines) = [] := by
  obtain ⟨c, hc, hspace⟩ := h
  obtain ⟨hindent, hnewline⟩ := not_isIndent_of_not_isSpace hspace
  cases s with
  | nil => cases hc
  | cons d s =>
    cases hc
    obtain ⟨line, rest, hlines⟩ := exists_splitLines hnewline s
    have hcontent : ¬ (c :: line).all isIndent := by simp [hindent]
    have hmem : c :: line ∈ splitLines (c :: s) ++ lines := by
      rw [hlines]
      exact List.mem_cons_self
    have hprefix := (prefix_margin_iff ⟨_, hmem, hcontent⟩).mp List.prefix_rfl _ hmem hcontent
    rw [List.takeWhile_cons_of_neg (by simp [hindent])] at hprefix
    exact List.prefix_nil.mp hprefix

/-- A text that starts at the margin loses nothing but lines of white space. -/
theorem dedent_of_startsFull (h : StartsFull s) :
    dedent s = joinLines ((splitLines s).map (dedentLine 0)) := by
  have hmargin : margin (splitLines s ++ []) = [] := margin_eq_nil_of_startsFull h
  rw [List.append_nil] at hmargin
  rw [dedent_eq, hmargin]
  rfl

/-- Without a margin, lines are dedented one by one. -/
theorem dedent_append (hs : StartsFull s) (ht : StartsFull t) :
    dedent (s ++ '\n' :: t) = dedent s ++ '\n' :: dedent t := by
  have hne (s : List Char) : (splitLines s).map (dedentLine 0) ≠ [] := by
    simpa using splitLines_ne_nil s
  rw [dedent_of_startsFull hs, dedent_of_startsFull ht, dedent_eq, splitLines_append,
    margin_eq_nil_of_startsFull hs]
  exact (congrArg joinLines List.map_append).trans (joinLines_append (hne s) (hne t))

theorem splitLines_of_not_mem (h : '\n' ∉ s) : splitLines s = [s] := by
  induction s with
  | nil => rfl
  | cons c s ih =>
    rw [List.mem_cons, not_or] at h
    rw [splitLines, if_neg (Ne.symm h.1), ih h.2]

/-- One line that starts at the margin stays as it is. -/
theorem dedent_of_not_mem (h : StartsFull s) (hnewline : '\n' ∉ s) : dedent s = s := by
  rw [dedent_of_startsFull h, splitLines_of_not_mem hnewline]
  obtain ⟨c, hc, hspace⟩ := h
  refine if_neg fun hall => ?_
  have := List.all_eq_true.mp hall c (List.mem_of_mem_head? hc)
  simp [not_isIndent_of_not_isSpace hspace] at this

/-- It still starts at the margin. -/
theorem startsFull_dedent (h : StartsFull s) : StartsFull (dedent s) := by
  rw [dedent_of_startsFull h]
  obtain ⟨c, hc, hspace⟩ := h
  obtain ⟨hindent, hnewline⟩ := not_isIndent_of_not_isSpace hspace
  cases s with
  | nil => cases hc
  | cons d s =>
    cases hc
    obtain ⟨line, rest, hlines⟩ := exists_splitLines hnewline s
    have hline : dedentLine 0 (c :: line) = c :: line := by simp [dedentLine, hindent]
    refine ⟨c, ?_, hspace⟩
    rw [hlines, List.map_cons, hline]
    cases rest.map (dedentLine 0) with
    | nil => rfl
    | cons next lines => rfl

/-- Lines behind lines that all start at the margin: only the last ones lose white space. -/
theorem strip_dedent_append (hs : StartsFull s) (ht : StartsFull t) :
    strip (dedent (s ++ '\n' :: t)) = dedent s ++ '\n' :: strip (dedent t) := by
  have hs' := startsFull_dedent hs
  have ht' := startsFull_dedent ht
  have hfull : ¬ ∀ c ∈ '\n' :: dedent t, isSpace c := fun h =>
    ht'.not_forall_isSpace fun c hc => h c (List.mem_cons_of_mem _ hc)
  have htrim := @trimEnd_append ['\n'] (dedent t) ht'.not_forall_isSpace
  rw [dedent_append hs ht, strip_eq_trimEnd (hs'.append _).not_isSpace, trimEnd_append hfull,
    strip_eq_trimEnd ht'.not_isSpace]
  exact congrArg _ htrim

end Abnf.Text
