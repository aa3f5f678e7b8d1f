import Abnf.Proofs.Grammar.Phrase

/-!
# Reading white space

The scanners for white space against its grammar. White space is the one place where the grammar is
ambiguous about where a piece ends: a line end belongs to it only if a blank follows. What makes the
scanners right all the same is that no piece of white space is the beginning of another, so that
`blank?` can only ever take the piece that a derivation took, and `skip` takes all of them.
-/

namespace Abnf.Grammar

open Token

variable {b w nl remark cs rest : List Char}

/-- A blank is a space or a tab. -/
theorem eq_of_isBlank {c : Char} (h : isBlank c) : c = ' ' ∨ c = '\t' := by
  simpa only [isBlank, Bool.or_eq_true, decide_eq_true_eq] using h

/-! ## Line ends -/

theorem not_isCommentChar_newline : ¬ isCommentChar '\n' := by decide

theorem not_isCommentChar_return : ¬ isCommentChar '\r' := by decide

theorem LineBreak.lineEnd? (h : LineBreak nl) : lineEnd? (nl ++ rest) = some rest := by
  cases h <;> rfl

theorem exists_of_lineEnd? (h : lineEnd? cs = some rest) :
    ∃ nl, LineBreak nl ∧ cs = nl ++ rest := by
  unfold Token.lineEnd? at h
  split at h
  · cases h; exact ⟨_, .lf, rfl⟩
  · cases h; exact ⟨_, .crlf, rfl⟩
  · cases h

/-- A line break starts with a character that no comment holds. -/
theorem LineBreak.cases_head (h : LineBreak nl) :
    ∃ c tail, nl = c :: tail ∧ (c = '\n' ∨ c = '\r') := by
  cases h
  · exact ⟨_, _, rfl, .inl rfl⟩
  · exact ⟨_, _, rfl, .inr rfl⟩

/-- A comment goes on up to the first character that it cannot hold. -/
theorem Remark.dropComment_append (h : Remark remark)
    (hrest : ∀ c ∈ rest.head?, ¬ isCommentChar c) (hsemi : remark = [] → rest.head? ≠ some ';') :
    dropComment (remark ++ rest) = rest := by
  cases h with
  | nothing =>
    cases rest with
    | nil => rfl
    | cons c rest =>
      have hc : c ≠ ';' := fun hc => hsemi rfl (by simp [hc])
      simp [dropComment, hc]
  | comment htext =>
    rw [List.cons_append, dropComment, List.dropWhile_append_of_pos htext]
    cases rest with
    | nil => rfl
    | cons c rest => rw [List.dropWhile_cons_of_neg (hrest c rfl)]

theorem Remark.dropComment (h : Remark remark) : dropComment remark = [] := by
  have := @Remark.dropComment_append _ [] h (by simp) (by simp)
  rwa [List.append_nil] at this

theorem Remark.dropComment_lineBreak (hr : Remark remark) (h : LineBreak nl) :
    Token.dropComment (remark ++ (nl ++ rest)) = nl ++ rest := by
  obtain ⟨c, tail, rfl, hc⟩ := h.cases_head
  refine hr.dropComment_append (fun d hd => ?_) (fun _ => ?_)
  · obtain rfl : c = d := by simpa using hd
    rcases hc with rfl | rfl
    · exact not_isCommentChar_newline
    · exact not_isCommentChar_return
  · rcases hc with rfl | rfl <;> simp

/-- What `dropComment` drops is a comment, or nothing. -/
theorem exists_remark (cs : List Char) :
    ∃ remark, Remark remark ∧ cs = remark ++ dropComment cs := by
  unfold Token.dropComment
  split
  · rename_i cs
    refine ⟨';' :: cs.takeWhile isCommentChar, .comment ?_, ?_⟩
    · exact List.all_eq_true.mp List.all_takeWhile
    · rw [List.cons_append, List.takeWhile_append_dropWhile]
  · exact ⟨[], .nothing, rfl⟩

/-- A line end is found behind its comment. -/
theorem LineEnd.lineEnd? (h : LineEnd nl) : lineEnd? (dropComment (nl ++ rest)) = some rest := by
  obtain ⟨hr, hb⟩ := h
  rw [List.append_assoc, hr.dropComment_lineBreak hb, hb.lineEnd?]

theorem exists_lineEnd (h : lineEnd? (dropComment cs) = some rest) :
    ∃ nl, LineEnd nl ∧ cs = nl ++ rest := by
  obtain ⟨remark, hr, hcs⟩ := exists_remark cs
  obtain ⟨nl, hb, hdrop⟩ := exists_of_lineEnd? h
  exact ⟨remark ++ nl, .mk hr hb, by rw [List.append_assoc, ← hdrop, ← hcs]⟩

/-- A line end starts with a semicolon, a newline or a carriage return. -/
theorem LineEnd.cases_head (h : LineEnd nl) :
    ∃ c tail, nl = c :: tail ∧ (c = ';' ∨ c = '\n' ∨ c = '\r') := by
  obtain ⟨hr, hb⟩ := h
  cases hr with
  | nothing =>
    obtain ⟨c, tail, rfl, hc⟩ := hb.cases_head
    exact ⟨c, tail, rfl, .inr hc⟩
  | comment => exact ⟨';', _, rfl, .inl rfl⟩

theorem LineEnd.not_isBlank_head (h : LineEnd nl) :
    ∃ c tail, nl = c :: tail ∧ ¬ isBlank c := by
  obtain ⟨c, tail, rfl, rfl | rfl | rfl⟩ := h.cases_head <;> exact ⟨_, _, rfl, by decide⟩

/-! ## Single pieces -/

/-- Behind a line end that no blank follows there is no white space to take. -/
theorem LineEnd.blank?_append (h : LineEnd nl) :
    blank? (nl ++ rest) = match rest with
      | c :: rest => if isBlank c then some rest else none
      | [] => none := by
  obtain ⟨c, tail, rfl, hc⟩ := h.not_isBlank_head
  have hend := @LineEnd.lineEnd? _ rest h
  rw [List.cons_append] at hend ⊢
  simp only [blank?, hc, hend]
  cases rest <;> rfl

/-- The scanner takes whatever piece of white space stands there. -/
theorem Blank.blank?_append (h : Blank b) : blank? (b ++ rest) = some rest := by
  cases h with
  | blank hc => simp [blank?, hc]
  | folded hnl hc => rw [List.append_assoc, hnl.blank?_append]; simp [hc]

theorem exists_blank (h : blank? cs = some rest) : ∃ b, Blank b ∧ cs = b ++ rest := by
  -- either the first character is the blank, or the text goes on behind the end of a line
  unfold blank? at h
  split at h
  · cases h
  · rename_i c tail
    split at h
    · rename_i hc
      cases h
      exact ⟨[c], .blank hc, rfl⟩
    · split at h
      · rename_i d tail' hend
        split at h
        · rename_i hd
          cases h
          obtain ⟨nl, hnl, hcs⟩ := exists_lineEnd hend
          exact ⟨nl ++ [d], .folded hnl hd, by rw [hcs]; simp⟩
        · cases h
      · cases h

theorem Blank.ne_nil (h : Blank b) : b ≠ [] := by
  cases h <;> simp

theorem length_lt_of_blank? (h : blank? cs = some rest) : rest.length < cs.length := by
  obtain ⟨b, hb, rfl⟩ := exists_blank h
  have := List.length_pos_iff.mpr hb.ne_nil
  simp; omega

/-! ## All of it -/

/-- Every piece takes a character, so any count that covers the characters is as good as another. -/
theorem skipBlanks_eq : ∀ (n m : Nat) {cs : List Char}, cs.length ≤ n → cs.length ≤ m →
    skipBlanks n cs = skipBlanks m cs
  | 0, m, cs, hn, _ => by
      obtain rfl : cs = [] := List.eq_nil_of_length_eq_zero (Nat.le_zero.mp hn)
      cases m <;> rfl
  | n + 1, 0, cs, _, hm => by
      obtain rfl : cs = [] := List.eq_nil_of_length_eq_zero (Nat.le_zero.mp hm)
      rfl
  | n + 1, m + 1, cs, hn, hm => by
      rw [skipBlanks, skipBlanks]
      split
      · rename_i rest hb
        have hlt := length_lt_of_blank? hb
        exact skipBlanks_eq n m (by omega) (by omega)
      · rfl

theorem skip_of_blank? (h : blank? cs = some rest) : skip cs = skip rest := by
  have hlt := length_lt_of_blank? h
  unfold skip
  rw [skipBlanks_eq cs.length (cs.length + 1) (Nat.le_refl _) (Nat.le_succ _), skipBlanks, h]
  exact skipBlanks_eq _ _ (Nat.le_of_lt hlt) (Nat.le_refl _)

theorem skip_of_blank?_eq_none (h : blank? cs = none) : skip cs = cs := by
  unfold skip
  cases hn : cs.length with
  | zero => rfl
  | succ n => rw [skipBlanks, h]

/-- However white space is cut into pieces, the scanner takes it all. -/
theorem Blanks.skip_append (h : Blanks w) : skip (w ++ rest) = skip rest := by
  induction h with
  | nil => rfl
  | cons hb _ ih => rw [List.append_assoc, skip_of_blank? hb.blank?_append, ih]

theorem Blanks.append {v w : List Char} (hv : Blanks v) (hw : Blanks w) : Blanks (v ++ w) := by
  induction hv with
  | nil => exact hw
  | cons hb _ ih => rw [List.append_assoc]; exact .cons hb ih

theorem Blank.blanks (h : Blank b) : Blanks b := by
  have := Blanks.cons h .nil
  rwa [List.append_nil] at this

/-- What the scanner skips is white space, and no piece of white space is left to take. -/
theorem exists_blanks : ∀ (n : Nat) (cs : List Char), cs.length ≤ n →
    ∃ w, Blanks w ∧ cs = w ++ skip cs ∧ blank? (skip cs) = none
  | 0, cs, h => by
      obtain rfl : cs = [] := List.eq_nil_of_length_eq_zero (Nat.le_zero.mp h)
      exact ⟨[], .nil, rfl, rfl⟩
  | n + 1, cs, h => by
      cases hb : blank? cs with
      | none =>
          rw [skip_of_blank?_eq_none hb]
          exact ⟨[], .nil, rfl, hb⟩
      | some rest =>
          have hlt := length_lt_of_blank? hb
          obtain ⟨b, hblank, hcs⟩ := exists_blank hb
          obtain ⟨w, hw, hrest, hnone⟩ := exists_blanks n rest (by omega)
          rw [skip_of_blank? hb]
          exact ⟨b ++ w, .cons hblank hw, by rw [List.append_assoc, ← hrest, ← hcs], hnone⟩

theorem exists_blanks_skip (cs : List Char) : ∃ w, Blanks w ∧ cs = w ++ skip cs :=
  let ⟨w, hw, hcs, _⟩ := exists_blanks cs.length cs (Nat.le_refl _)
  ⟨w, hw, hcs⟩

theorem blank?_skip (cs : List Char) : blank? (skip cs) = none :=
  let ⟨_, _, _, h⟩ := exists_blanks cs.length cs (Nat.le_refl _)
  h

theorem skip_skip (cs : List Char) : skip (skip cs) = skip cs :=
  skip_of_blank?_eq_none (blank?_skip cs)

/-- White space that has to be there is one piece and then more. -/
theorem skip?_append (hb : Blank b) (hw : Blanks w) :
    skip? (b ++ (w ++ rest)) = some (skip rest) := by
  rw [skip?, hb.blank?_append, Option.map_some, hw.skip_append]

theorem exists_of_skip? (h : skip? cs = some rest) :
    rest = skip cs ∧ ∃ b w, Blank b ∧ Blanks w ∧ cs = b ++ (w ++ rest) := by
  rw [skip?, Option.map_eq_some_iff] at h
  obtain ⟨mid, hmid, rfl⟩ := h
  obtain ⟨b, hb, hcs⟩ := exists_blank hmid
  obtain ⟨w, hw, hrest⟩ := exists_blanks_skip mid
  exact ⟨(skip_of_blank? hmid).symm, b, w, hb, hw, by rw [← hrest, hcs]⟩

theorem skip_of_skip?_eq_none (h : skip? cs = none) : skip cs = cs :=
  skip_of_blank?_eq_none (by simpa [skip?] using h)

end Abnf.Grammar
