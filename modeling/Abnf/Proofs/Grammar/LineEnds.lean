import Abnf.Proofs.Grammar.Lines
import Abnf.Proofs.Grammar.Spaces
import Abnf.Proofs.Text.Margin

/-!
# Either line end

The notation takes a newline for the end of a line, alone or behind a carriage return, and takes a
carriage return for nothing else. So a text stays the same rules when its line ends are exchanged
for one another (`Ended.flatMap`), and is read as the same rules (`read_crlf`).
-/

namespace Abnf.Grammar

open Token

variable {g : Char → List Char} {u v w nl : List Char} {ds : List Definition} {p : Phrase}

/-- An exchange of line ends, given by what becomes of each character, that keeps all others. -/
structure ExchangesEnds (g : Char → List Char) : Prop where
  other : ∀ c, c ≠ '\r' → c ≠ '\n' → g c = [c]
  lf : LineBreak (g '\n')
  crlf : LineBreak (g '\r' ++ g '\n')

/-! ## Characters that are no line end -/

/-- No line ends within a text. -/
def Unbroken (u : List Char) : Prop := ∀ c ∈ u, c ≠ '\r' ∧ c ≠ '\n'

instance (u : List Char) : Decidable (Unbroken u) :=
  List.decidableBAll (fun c => c ≠ '\r' ∧ c ≠ '\n') u

theorem ne_of_isPrintable {c : Char} (h : IsPrintable c) : c ≠ '\r' ∧ c ≠ '\n' := by
  have hle : 32 ≤ c.toNat := h.1
  constructor <;> (rintro rfl; exact absurd hle (by decide))

theorem ne_of_isBlank {c : Char} (h : isBlank c) : c ≠ '\r' ∧ c ≠ '\n' := by
  rcases eq_of_isBlank h with rfl | rfl <;> decide

theorem unbroken_of_not_isSpace (h : ∀ c ∈ u, ¬ Text.isSpace c) : Unbroken u := by
  intro c hc
  constructor <;> (rintro rfl; exact h _ hc (by decide))

theorem Unbroken.cons {c : Char} (hc : c ≠ '\r' ∧ c ≠ '\n') (h : Unbroken u) : Unbroken (c :: u) :=
  List.forall_mem_cons.mpr ⟨hc, h⟩

theorem Unbroken.append (hu : Unbroken u) (hv : Unbroken v) : Unbroken (u ++ v) :=
  List.forall_mem_append.mpr ⟨hu, hv⟩

theorem unbroken_of_printable (h : ∀ c ∈ u, IsPrintable c) : Unbroken u := fun c hc =>
  ne_of_isPrintable (h c hc)

theorem Definition.unbroken_sign (d : Definition) : Unbroken d.sign := by
  unfold sign
  split <;> decide

theorem RepeatText.unbroken {bounds : Bounds} (h : RepeatText bounds u) : Unbroken u := by
  have hdigits {digits : List Char} (h : ∀ c ∈ digits, Base.decimal.isDigit c) : Unbroken digits :=
    unbroken_of_not_isSpace fun c hc => Base.not_isSpace_of_isDigit (h c hc)
  cases h with
  | exact hcount => exact hdigits hcount.2
  | range hleast hmost => exact (hdigits hleast).append ((hdigits hmost).cons (by decide))

namespace ExchangesEnds

variable (hg : ExchangesEnds g)

include hg

theorem flatMap_of_unbroken (h : Unbroken u) : u.flatMap g = u := by
  induction u with
  | nil => rfl
  | cons c u ih =>
    rw [Unbroken, List.forall_mem_cons] at h
    rw [List.flatMap_cons, hg.other c h.1.1 h.1.2, ih h.2]
    rfl

theorem lineBreak (h : LineBreak nl) : LineBreak (nl.flatMap g) := by
  cases h with
  | lf => simpa using hg.lf
  | crlf => simpa using hg.crlf

theorem remark (h : Remark u) : Remark (u.flatMap g) := by
  cases h with
  | nothing => exact .nothing
  | @comment text htext =>
    have hunbroken : Unbroken text := by
      intro c hc
      have hc := htext c hc
      simp only [isCommentChar, Bool.or_eq_true, Bool.and_eq_true, decide_eq_true_eq] at hc
      rcases hc with hc | ⟨hleast, hmost⟩
      · exact ne_of_isBlank hc
      · exact ne_of_isPrintable ⟨Char.le_trans (by decide) hleast, hmost⟩
    rw [hg.flatMap_of_unbroken (hunbroken.cons (by decide))]
    exact .comment htext

theorem lineEnd (h : LineEnd nl) : LineEnd (nl.flatMap g) := by
  obtain ⟨hr, hnl⟩ := h
  rw [List.flatMap_append]
  exact .mk (hg.remark hr) (hg.lineBreak hnl)

theorem blank (h : Blank u) : Blank (u.flatMap g) := by
  cases h with
  | @blank c hc =>
    rw [hg.flatMap_of_unbroken (List.forall_mem_singleton.mpr (ne_of_isBlank hc))]
    exact .blank hc
  | @folded nl c hnl hc =>
    rw [List.flatMap_append,
      hg.flatMap_of_unbroken (List.forall_mem_singleton.mpr (ne_of_isBlank hc))]
    exact .folded (hg.lineEnd hnl) hc

theorem blanks (h : Blanks u) : Blanks (u.flatMap g) := by
  induction h with
  | nil => exact .nil
  | cons hb _ ih =>
    rw [List.flatMap_append]
    exact .cons (hg.blank hb) ih

/-- A phrase is derived from a text with other line ends as well. -/
theorem derives {n : Nonterminal} (h : Derives n p u) : Derives n p (u.flatMap g) := by
  have hone {c : Char} (hc : c ≠ '\r' ∧ c ≠ '\n') (u : List Char) :
      (c :: u).flatMap g = c :: u.flatMap g := by
    rw [List.flatMap_cons, hg.other c hc.1 hc.2]
    rfl
  -- line ends stand in the white space alone; all else is kept character by character
  induction h with
  | reference hname =>
    rw [hg.flatMap_of_unbroken (unbroken_of_not_isSpace hname.not_isSpace)]
    exact .reference hname
  | group hv _ hw ih =>
    rw [hone (by decide), List.flatMap_append, List.flatMap_append, List.flatMap_append,
      hone (by decide)]
    exact .group (hg.blanks hv) ih (hg.blanks hw)
  | option hv _ hw ih =>
    rw [hone (by decide), List.flatMap_append, List.flatMap_append, List.flatMap_append,
      hone (by decide)]
    exact .option (hg.blanks hv) ih (hg.blanks hw)
  | quoted htext =>
    have hunbroken := unbroken_of_printable fun c hc => isPrintable_of_isQuotedChar (htext c hc)
    rw [hone (by decide), List.flatMap_append, hg.flatMap_of_unbroken hunbroken, hone (by decide)]
    exact .quoted htext
  | codes hnumbers =>
    rw [hone (by decide), hg.flatMap_of_unbroken (unbroken_of_not_isSpace hnumbers.not_isSpace)]
    exact .codes hnumbers
  | prose htext =>
    have hunbroken := unbroken_of_printable fun c hc => isPrintable_of_isProseChar (htext c hc)
    rw [hone (by decide), List.flatMap_append, hg.flatMap_of_unbroken hunbroken, hone (by decide)]
    exact .prose htext
  | once _ ih => exact .once ih
  | times hbounds _ ih =>
    rw [List.flatMap_append, hg.flatMap_of_unbroken hbounds.unbroken]
    exact .times hbounds ih
  | single _ ih => exact .single ih
  | seq _ hb hw _ ihp ihq =>
    simp only [List.flatMap_append]
    exact .seq ihp (hg.blank hb) (hg.blanks hw) ihq
  | only _ ih => exact .only ih
  | alt _ hw hx _ ihp ihq =>
    rw [List.flatMap_append, List.flatMap_append, hone (by decide), List.flatMap_append]
    exact .alt ihp (hg.blanks hw) (hg.blanks hx) ihq

theorem ruleText {d : Definition} (h : RuleText d u) : RuleText d (u.flatMap g) := by
  obtain ⟨hname, hv, hw, hp, hx⟩ := h
  simp only [List.flatMap_append, hg.flatMap_of_unbroken d.unbroken_sign,
    hg.flatMap_of_unbroken (unbroken_of_not_isSpace hname.not_isSpace)]
  exact .mk hname (hg.blanks hv) (hg.blanks hw) (hg.derives hp) (hg.blanks hx)

/-- Lines with other line ends hold the same rules. -/
theorem ended {cs : List Char} (h : Ended ds cs) : Ended ds (cs.flatMap g) := by
  induction h with
  | blank hw hr =>
    rw [List.flatMap_append]
    exact .blank (hg.blanks hw) (hg.remark hr)
  | rule hu hr =>
    rw [List.flatMap_append]
    exact .rule (hg.ruleText hu) (hg.remark hr)
  | blankLine hw hnl _ ih =>
    rw [List.flatMap_append, List.flatMap_append]
    exact .blankLine (hg.blanks hw) (hg.lineEnd hnl) ih
  | ruleLine hu hnl _ ih =>
    rw [List.flatMap_append, List.flatMap_append]
    exact .ruleLine (hg.ruleText hu) (hg.lineEnd hnl) ih

end ExchangesEnds

/-! ## Newlines and carriage returns -/

/-- Every line end becomes a carriage return and a newline. -/
def toCrlf (c : Char) : List Char := if c = '\r' then [] else Text.crlfChar c

/-- Every line end becomes a newline. -/
def toLf (c : Char) : List Char := if c = '\r' then [] else [c]

theorem exchangesEnds_toCrlf : ExchangesEnds toCrlf where
  other _ hr hn := (if_neg hr).trans (Text.crlfChar_of_ne hn)
  lf := .crlf
  crlf := .crlf

theorem exchangesEnds_toLf : ExchangesEnds toLf where
  other _ hr _ := if_neg hr
  lf := .lf
  crlf := .lf

theorem flatMap_toCrlf (hu : '\r' ∉ u) : u.flatMap toCrlf = Text.crlf u :=
  List.flatMap_congr fun c hc => if_neg fun h : c = '\r' => hu (h ▸ hc)

theorem flatMap_toLf (hu : '\r' ∉ u) : (Text.crlf u).flatMap toLf = u := by
  rw [Text.crlf, List.flatMap_assoc]
  refine Eq.trans (List.flatMap_congr fun c hc => ?_) (List.flatMap_singleton' u)
  have hr : c ≠ '\r' := fun h => hu (h ▸ hc)
  rw [Text.crlfChar]
  split
  · rename_i hn
    subst hn
    rfl
  · rw [List.flatMap_singleton]
    exact if_neg hr

/-- Newlines may have a carriage return before them. -/
theorem ended_crlf_iff (hu : '\r' ∉ u) : Ended ds (Text.crlf u) ↔ Ended ds u := by
  constructor
  · intro h
    rw [← flatMap_toLf hu]
    exact exchangesEnds_toLf.ended h
  · intro h
    rw [← flatMap_toCrlf hu]
    exact exchangesEnds_toCrlf.ended h

theorem read_crlf [Interpreter] {given rules : Rules} (hu : '\r' ∉ u) :
    read given (Text.crlf u) = .ok rules ↔ read given u = .ok rules := by
  simp only [read_eq_ok, ended_crlf_iff hu]

end Abnf.Grammar
