import Abnf.Proofs.Grammar.Reading
import Abnf.Proofs.Grammar.Source

/-!
# White space and phrases

Names and numbers hold no white space of any kind, strings and comments none but spaces and tabs,
and no phrase ends in any.
-/

namespace Abnf.Grammar

open Token

/-! ## Tokens -/

theorem not_isSpace_of_visible {c : Char} (h : 32 < c.toNat) (h' : c.toNat < 127) :
    ¬ Text.isSpace c := by
  rw [Text.isSpace, if_pos (by omega)]
  simp only [Bool.or_eq_true, Bool.and_eq_true, decide_eq_true_eq]
  omega

theorem not_isSpace_of_isLetter {c : Char} (h : isLetter c) : ¬ Text.isSpace c := by
  rw [isLetter_iff] at h
  exact not_isSpace_of_visible (by omega) (by omega)

theorem not_isSpace_of_isAsciiDigit {c : Char} (h : Text.isAsciiDigit c) : ¬ Text.isSpace c := by
  simp only [Text.isAsciiDigit, Bool.and_eq_true, decide_eq_true_eq] at h
  have hbounds : 48 ≤ c.toNat ∧ c.toNat ≤ 57 := h
  exact not_isSpace_of_visible (by omega) (by omega)

theorem RuleName.not_isSpace {u : List Char} (h : RuleName u) : ∀ c ∈ u, ¬ Text.isSpace c := by
  obtain ⟨hc, hmore⟩ := h
  refine List.forall_mem_cons.mpr ⟨not_isSpace_of_isLetter hc, fun d hd => ?_⟩
  have hd := hmore d hd
  simp only [isNameChar, Bool.or_eq_true, decide_eq_true_eq] at hd
  rcases hd with (hd | hd) | rfl
  · exact not_isSpace_of_isLetter hd
  · exact not_isSpace_of_isAsciiDigit hd
  · decide

theorem Token.Base.not_isSpace_of_isDigit {base : Base} {c : Char} (h : base.isDigit c) :
    ¬ Text.isSpace c := by
  cases base with
  | binary =>
    simp only [Base.isDigit, Bool.or_eq_true, decide_eq_true_eq] at h
    rcases h with rfl | rfl <;> decide
  | decimal => exact not_isSpace_of_isAsciiDigit h
  | hexadecimal =>
    simp only [Base.isDigit, Text.isHexDigit, Bool.or_eq_true, Bool.and_eq_true,
      decide_eq_true_eq] at h
    have hbounds : (48 ≤ c.toNat ∧ c.toNat ≤ 57 ∨ 65 ≤ c.toNat ∧ c.toNat ≤ 70) ∨
        97 ≤ c.toNat ∧ c.toNat ≤ 102 := h
    exact not_isSpace_of_visible (by omega) (by omega)

/-- Numbers are written with the letter of their base, its digits, dots and a hyphen. -/
theorem NumbersText.forall_mem {P : Char → Prop} {numbers : Numbers} {u : List Char}
    (h : NumbersText numbers u)
    (hletter : ∀ {letter : Char} {base : Base}, Base.ofLetter? letter = some base → P letter)
    (hdigit : ∀ {base : Base} {c : Char}, base.isDigit c → P c) (hdot : P '.') (hhyphen : P '-') :
    ∀ c ∈ u, P c := by
  have hdigits {base : Base} {digits : List Char} (h : Digits base digits) : ∀ c ∈ digits, P c :=
    fun c hc => hdigit (h.2 c hc)
  cases h with
  | row hbase hfirst hmore =>
    refine List.forall_mem_cons.mpr ⟨hletter hbase, List.forall_mem_append.mpr ⟨hdigits hfirst, ?_⟩⟩
    intro c hc
    obtain ⟨digits, hmem, hc⟩ := List.mem_flatMap.mp hc
    rcases List.mem_cons.mp hc with rfl | hc
    · exact hdot
    · exact hdigits (hmore digits hmem) c hc
  | range hbase hfirst hlast =>
    refine List.forall_mem_cons.mpr ⟨hletter hbase, List.forall_mem_append.mpr ⟨hdigits hfirst, ?_⟩⟩
    exact List.forall_mem_cons.mpr ⟨hhyphen, hdigits hlast⟩

theorem NumbersText.not_isSpace {numbers : Numbers} {u : List Char} (h : NumbersText numbers u) :
    ∀ c ∈ u, ¬ Text.isSpace c := by
  refine h.forall_mem (fun hbase => ?_) Base.not_isSpace_of_isDigit (by decide) (by decide)
  unfold Base.ofLetter? at hbase
  split at hbase <;> first | decide | cases hbase

theorem not_isSpace_of_startsPhrase {c : Char} (h : startsPhrase c) : ¬ Text.isSpace c := by
  simp only [startsPhrase, startsElement, Bool.or_eq_true, List.contains_iff_mem,
    decide_eq_true_eq] at h
  rcases h with ((hletter | hopening) | hdigit) | rfl
  · exact not_isSpace_of_isLetter hletter
  · simp only [List.mem_cons, List.not_mem_nil, or_false] at hopening
    rcases hopening with rfl | rfl | rfl | rfl | rfl <;> decide
  · exact not_isSpace_of_isAsciiDigit hdigit
  · decide

/-- No phrase ends in white space. -/
theorem Derives.not_isSpace_getLast? {n : Nonterminal} {p : Phrase} {u : List Char}
    (h : Derives n p u) : ∀ c ∈ u.getLast?, ¬ Text.isSpace c := by
  -- the last part of a phrase is not empty, and so decides how the phrase ends
  have hbehind {u v : List Char} {n : Nonterminal} {p : Phrase} (hp : Derives n p u)
      (ih : ∀ c ∈ u.getLast?, ¬ Text.isSpace c) : ∀ c ∈ (v ++ u).getLast?, ¬ Text.isSpace c := by
    obtain ⟨c, tail, rfl, -⟩ := hp.startsPhrase_head
    rwa [List.getLast?_append_of_ne_nil v (List.cons_ne_nil c tail)]
  have hclosed (closing : Char) (hclosing : ¬ Text.isSpace closing) (v : List Char) :
      ∀ c ∈ (v ++ [closing]).getLast?, ¬ Text.isSpace c := by
    rw [List.getLast?_concat]
    rintro c ⟨⟩
    exact hclosing
  induction h with
  | reference hname => exact fun c hc => hname.not_isSpace c (List.mem_of_getLast? hc)
  | @group p u v w => simpa using hclosed ')' (by decide) ('(' :: (v ++ (u ++ w)))
  | @option p u v w => simpa using hclosed ']' (by decide) ('[' :: (v ++ (u ++ w)))
  | @quoted text => simpa using hclosed '"' (by decide) ('"' :: text)
  | @prose text => simpa using hclosed '>' (by decide) ('<' :: text)
  | codes hnumbers =>
    refine fun c hc => ?_
    rcases List.mem_cons.mp (List.mem_of_getLast? hc) with rfl | hc
    · decide
    · exact hnumbers.not_isSpace c hc
  | once _ ih | single _ ih | only _ ih => exact ih
  | times _ hp ih => exact hbehind hp ih
  | @seq p q u v b w hp hb hw hq ihp ihq =>
    have := @hbehind _ (u ++ (b ++ w)) _ _ hq ihq
    simpa only [List.append_assoc] using this
  | @alt p q u v w x hp hw hx hq ihp ihq =>
    have := @hbehind _ (u ++ (w ++ '/' :: x)) _ _ hq ihq
    simpa only [List.append_assoc, List.cons_append] using this

end Abnf.Grammar
