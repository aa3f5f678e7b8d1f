import Abnf.Text.Casing

/-!
# Case forms

What the tables of letters hold: the capital and the small letter of a letter are letters again. In
ASCII they are among `A` to `Z` and `a` to `z`, and beyond it they are characters at least, and not
code points that none has (`isForm_of_caseForms?`). So a case form never is a character that means
something else in a regular expression.
-/

namespace Abnf.Text

variable {run : LetterRun} {code form upperForm lowerForm : Nat}

/-- The code point of a character, which is a letter if it is one of ASCII. -/
structure IsForm (code : Nat) : Prop where
  valid : code.isValidChar
  letter : code < 128 → isAsciiCapital code || isAsciiSmall code

/-- The code points of a range beyond ASCII are all characters. -/
def AllForms (first last : Nat) : Prop :=
  128 ≤ first ∧ (last < 0xD800 ∨ 0xDFFF < first ∧ last < 0x110000)

instance (first last : Nat) : Decidable (AllForms first last) := inferInstanceAs (Decidable (_ ∧ _))

theorem AllForms.isForm {first last : Nat} (h : AllForms first last) (hfirst : first ≤ code)
    (hlast : code ≤ last) : IsForm code := by
  obtain ⟨hascii, hvalid⟩ := h
  refine ⟨?_, fun hlt => absurd hlt (by omega)⟩
  unfold Nat.isValidChar
  omega

theorem isForm_of_isAsciiCapital (h : isAsciiCapital code) : IsForm code := by
  have hbounds : 65 ≤ code ∧ code ≤ 90 := by simpa [isAsciiCapital] using h
  refine ⟨.inl (by omega), fun _ => ?_⟩
  rw [h, Bool.true_or]

theorem isForm_of_isAsciiSmall (h : isAsciiSmall code) : IsForm code := by
  have hbounds : 97 ≤ code ∧ code ≤ 122 := by simpa [isAsciiSmall] using h
  refine ⟨.inl (by omega), fun _ => ?_⟩
  rw [h, Bool.or_true]

/-! ## Tables -/

/-- Both sides of a run are characters beyond ASCII. -/
def LetterRun.Sound (run : LetterRun) : Prop :=
  run.first ≤ run.last ∧ AllForms run.first run.last ∧
    AllForms run.small (run.small + (run.last - run.first))

instance (run : LetterRun) : Decidable run.Sound := inferInstanceAs (Decidable (_ ∧ _ ∧ _))

theorem sound_capitalRuns : ∀ run ∈ capitalRuns, run.Sound := by decide +kernel

theorem sound_partnerRuns : ∀ run ∈ partnerRuns, run.Sound := by decide +kernel

theorem LetterRun.Sound.form_of_small? (h : run.Sound) (hform : run.small? code = some form) :
    IsForm form ∧ 128 ≤ form := by
  obtain ⟨hle, -, hsmall⟩ := h
  unfold LetterRun.small? at hform
  split at hform
  · cases hform
    exact ⟨hsmall.isForm (by omega) (by omega), Nat.le_trans hsmall.1 (Nat.le_add_right ..)⟩
  · cases hform

theorem LetterRun.Sound.form_of_capital? (h : run.Sound) (hform : run.capital? code = some form) :
    IsForm form ∧ 128 ≤ form := by
  obtain ⟨hle, hcapital, -⟩ := h
  unfold LetterRun.capital? at hform
  split at hform
  · cases hform
    exact ⟨hcapital.isForm (by omega) (by omega), Nat.le_trans hcapital.1 (Nat.le_add_right ..)⟩
  · cases hform

/-- A pair of a table holds a form. -/
theorem isForm_of_lookup {table : List (Nat × Nat)}
    (h : ∀ pair ∈ table, isAsciiCapital pair.2 ∨ isAsciiSmall pair.2 ∨ AllForms pair.2 pair.2)
    (hform : table.lookup code = some form) : IsForm form := by
  obtain ⟨before, after, rfl, -⟩ := List.lookup_eq_some_iff.mp hform
  rcases h (code, form) (by simp) with hcapital | hsmall | hbeyond
  · exact isForm_of_isAsciiCapital hcapital
  · exact isForm_of_isAsciiSmall hsmall
  · exact hbeyond.isForm (Nat.le_refl _) (Nat.le_refl _)

/-! ## Capitals and small letters -/

theorem isForm_small? (h : small? code = some form) : IsForm form := by
  unfold small? at h
  split at h
  · rename_i hcapital
    cases h
    refine isForm_of_isAsciiSmall ?_
    simp only [isAsciiCapital, isAsciiSmall, Bool.and_eq_true, decide_eq_true_eq] at hcapital ⊢
    omega
  · split at h
    · cases h
    · obtain ⟨run, hrun, hform⟩ := List.exists_of_findSome?_eq_some h
      exact ((sound_capitalRuns run hrun).form_of_small? hform).1

theorem isForm_capital? (h : capital? code = some form) : IsForm form := by
  unfold capital? at h
  split at h
  · rename_i hsmall
    cases h
    refine isForm_of_isAsciiCapital ?_
    simp only [isAsciiCapital, isAsciiSmall, Bool.and_eq_true, decide_eq_true_eq] at hsmall ⊢
    omega
  · split at h
    · cases h
    · obtain ⟨run, hrun, hform⟩ := List.exists_of_findSome?_eq_some h
      exact ((sound_capitalRuns run hrun).form_of_capital? hform).1

/-- The capital of a character is a form, or else the character itself. -/
theorem isForm_upper (code : Nat) : upper code = code ∨ IsForm (upper code) := by
  unfold upper
  split
  · rename_i hcapital
    exact .inr (isForm_capital? hcapital)
  · split
    · exact .inl rfl
    · cases hlookup : oneWayCapitals.lookup code with
      | none => exact .inl rfl
      | some form => exact .inr (isForm_of_lookup (by decide) hlookup)

/-- The small letter of a character is a form, or else the character itself. -/
theorem isForm_lower (code : Nat) : lower code = code ∨ IsForm (lower code) := by
  unfold lower
  split
  · rename_i hsmall
    exact .inr (isForm_small? hsmall)
  · split
    · exact .inl rfl
    · cases hlookup : oneWaySmalls.lookup code with
      | some form => exact .inr (isForm_of_lookup (by decide) hlookup)
      | none =>
        cases hpartner : partnerRuns.findSome? (·.small? code) with
        | none => exact .inl rfl
        | some form =>
          obtain ⟨run, hrun, hform⟩ := List.exists_of_findSome?_eq_some hpartner
          exact .inr ((sound_partnerRuns run hrun).form_of_small? hform).1

/-- A character with another case form is a form itself. -/
theorem isForm_of_ne (hvalid : code.isValidChar) (h : upper code ≠ code ∨ lower code ≠ code) :
    IsForm code := by
  refine ⟨hvalid, fun hascii => ?_⟩
  have hall : ∀ code < 128, upper code ≠ code ∨ lower code ≠ code →
      isAsciiCapital code || isAsciiSmall code := by decide
  exact hall code hascii h

/-- The two case forms of a character are forms. -/
theorem isForm_of_caseForms? (hvalid : code.isValidChar)
    (h : caseForms? code = some (upperForm, lowerForm)) : IsForm upperForm ∧ IsForm lowerForm := by
  unfold caseForms? at h
  split at h
  · cases h
  · rename_i hne
    rw [Bool.or_eq_true, not_or, decide_eq_true_eq] at hne
    obtain ⟨rfl, rfl⟩ := Prod.mk.inj (Option.some.inj h)
    -- a form that is the character itself is a letter because the other form is not
    refine ⟨(isForm_upper code).elim (fun hsame => ?_) id,
      (isForm_lower code).elim (fun hsame => ?_) id⟩
    · rw [hsame]
      exact isForm_of_ne hvalid (.inr fun hlower => hne.2 (hsame.trans hlower.symm))
    · rw [hsame]
      exact isForm_of_ne hvalid (.inl fun hupper => hne.2 (hupper.trans hsame.symm))

namespace IsForm

theorem toNat_ofNat (h : IsForm code) : (Char.ofNat code).toNat = code := by
  rw [Char.ofNat, dif_pos h.valid]
  rfl

/-- A case form means nothing but itself in a set. -/
theorem not_mem (h : IsForm code) : Char.ofNat code ∉ ['^', '-', ']', '\\'] := by
  intro hmem
  have hall : ['^', '-', ']', '\\'].all fun c =>
      c.toNat < 128 && !(isAsciiCapital c.toNat || isAsciiSmall c.toNat) := by decide
  have hcode := List.all_eq_true.mp hall _ hmem
  rw [h.toNat_ofNat, Bool.and_eq_true, decide_eq_true_eq] at hcode
  rw [h.letter hcode.1] at hcode
  cases hcode.2

end IsForm

/-! ## Letters that differ only in case -/

/-- `I`, `K` and `S` in either case: of all letters in ASCII they have variants beyond it. -/
def sharedLetters : List Nat := [73, 75, 83, 105, 107, 115]

/-- What differs from a character beyond ASCII only in case is beyond it too, or a shared letter. -/
theorem le_or_mem_of_mem_caseVariants (hcode : 128 ≤ code) (h : form ∈ caseVariants code) :
    128 ≤ form ∨ form ∈ sharedLetters := by
  unfold caseVariants at h
  split at h
  · rename_i group hgroup
    have hall : ∀ group ∈ caseGroups, ∀ form ∈ group, 128 ≤ form ∨ form ∈ sharedLetters := by
      decide
    exact hall group (List.mem_of_find?_eq_some hgroup) form (List.mem_filter.mp h).1
  · -- no capital or small letter of ASCII is looked up, and the runs hold none
    have hascii : ¬ code < 128 := Nat.not_lt.mpr hcode
    have hcapital : ¬ isAsciiCapital code := by
      rw [isAsciiCapital, Bool.and_eq_true, decide_eq_true_eq, decide_eq_true_eq]
      omega
    have hsmall : ¬ isAsciiSmall code := by
      rw [isAsciiSmall, Bool.and_eq_true, decide_eq_true_eq, decide_eq_true_eq]
      omega
    rw [Option.mem_toList, small?, capital?, if_neg hcapital, if_neg hascii, if_neg hsmall,
      if_neg hascii] at h
    simp only [Option.or_eq_some_iff] at h
    refine .inl ?_
    obtain (h | ⟨-, h⟩) | ⟨-, h | ⟨-, h⟩⟩ := h <;>
      obtain ⟨run, hrun, hform⟩ := List.exists_of_findSome?_eq_some h
    · exact ((sound_capitalRuns run hrun).form_of_small? hform).2
    · exact ((sound_capitalRuns run hrun).form_of_capital? hform).2
    · exact ((sound_partnerRuns run hrun).form_of_small? hform).2
    · exact ((sound_partnerRuns run hrun).form_of_capital? hform).2

end Abnf.Text
