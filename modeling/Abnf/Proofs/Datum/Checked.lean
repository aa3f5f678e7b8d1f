import Abnf.Datum.Checked
import Abnf.Proofs.Text.Numeral
import Mathlib.Data.List.TakeWhile

/-!
# What checks give and what they blame

Two checks together give what both give (`both_eq_ok`), and what holds of all that either blames
holds of all that both blame (`Blames.both`); a check of a field blames the field (`blames_field`).
An integer can be handed in as a number or in digits, with as many zeros in front as one likes
(`integerText?_digits`).
-/

namespace Abnf

namespace Checked

variable {α β : Type} {first : Checked α} {second : Checked β} {a : α} {b : β}

theorem both_eq_ok : first.both second = .ok (a, b) ↔ first = .ok a ∧ second = .ok b := by
  cases first <;> cases second <;> simp [both]

/-- All issues of a check are of a kind. -/
def Blames (P : Issue → Prop) (checked : Checked α) : Prop :=
  ∀ issues, checked = .error issues → ∀ issue ∈ issues, P issue

variable {P Q : Issue → Prop}

theorem blames_ok : Blames P (.ok a : Checked α) := by
  intro issues h
  cases h

theorem Blames.imp (h : first.Blames P) (himp : ∀ issue, P issue → Q issue) : first.Blames Q :=
  fun issues hissues issue hmem => himp issue (h issues hissues issue hmem)

/-- Two checks together find nothing that neither finds. -/
theorem Blames.both (hfirst : first.Blames P) (hsecond : second.Blames P) :
    (first.both second).Blames P := by
  intro issues h issue hissue
  cases first with
  | ok a =>
    cases second with
    | ok b => cases h
    | error more =>
      cases h
      exact hsecond issues rfl issue hissue
  | error less =>
    cases second with
    | ok b =>
      cases h
      exact hfirst issues rfl issue hissue
    | error more =>
      cases h
      rcases List.mem_append.mp hissue with hmem | hmem
      · exact hfirst less rfl issue hmem
      · exact hsecond more rfl issue hmem

variable {fields : List (List Char × Datum)} {name : String} {check : Datum → Checked α}

theorem field_eq_ok : field fields name check = .ok a ↔
    ∃ datum, fields.lookup name.toList = some datum ∧ check datum = .ok a := by
  rw [field]
  cases fields.lookup name.toList with
  | none => simp [under, refuse]
  | some datum => cases hcheck : check datum <;> simp [under, hcheck]

/-- An issue with a field names the field. -/
theorem blames_field :
    (field fields name check).Blames fun issue => issue.path.head? = some (.field name) := by
  have hunder (checked : Checked α) :
      (checked.under (.field name)).Blames fun issue => issue.path.head? = some (.field name) := by
    intro issues h issue hissue
    cases checked with
    | ok a => cases h
    | error less =>
      cases h
      obtain ⟨inner, -, rfl⟩ := List.mem_map.mp hissue
      rfl
  exact hunder _

end Checked

/-! ## Integers -/

namespace Datum

variable {digits : List Char} {c : Char} {n : Nat}

/-- A digit is nothing that is passed over around or within an integer. -/
theorem not_mark_of_isAsciiDigit (h : Text.isAsciiDigit c) :
    ¬ Text.isSpace c ∧ c ≠ '.' ∧ c ≠ '_' ∧ c ≠ '-' ∧ c ≠ '+' := by
  have hall : ∀ code < 58, 48 ≤ code → ∀ c, c = Char.ofNat code →
      ¬ Text.isSpace c ∧ c ≠ '.' ∧ c ≠ '_' ∧ c ≠ '-' ∧ c ≠ '+' := by
    simp only [forall_eq]
    decide
  obtain ⟨hleast, hmost⟩ := Text.isAsciiDigit_iff.mp h
  exact hall c.toNat (by omega) hleast c (Char.ofNat_toNat c).symm

theorem dropWhile_isSpace (h : ∀ c ∈ digits, Text.isAsciiDigit c) :
    digits.dropWhile Text.isSpace = digits := by
  cases digits with
  | nil => rfl
  | cons c digits =>
    exact List.dropWhile_cons_of_neg (not_mark_of_isAsciiDigit (h c List.mem_cons_self)).1

/-- Digits stand for their number, however many zeros come first. -/
theorem integerText?_digits (hne : digits ≠ []) (h : ∀ c ∈ digits, Text.isAsciiDigit c) :
    integerText? digits = some (Text.numeralValue 10 digits : Int) := by
  have hmark (c : Char) (hc : c ∈ digits) := not_mark_of_isAsciiDigit (h c hc)
  have htrim :
      (((digits.dropWhile Text.isSpace).reverse).dropWhile Text.isSpace).reverse = digits := by
    rw [dropWhile_isSpace h, dropWhile_isSpace fun c hc => h c (List.mem_reverse.mp hc),
      List.reverse_reverse]
  -- nothing is cut off: there is no point, hence nothing behind one, and no underscore
  have hwhole : digits.takeWhile (· ≠ '.') = digits :=
    List.takeWhile_eq_self_iff.mpr fun c hc => decide_eq_true (hmark c hc).2.1
  have hzeros : digits.dropWhile (· ≠ '.') = [] :=
    List.dropWhile_eq_nil_iff.mpr fun c hc => decide_eq_true (hmark c hc).2.1
  have hdigits : digits.filter (· ≠ '_') = digits :=
    List.filter_eq_self.mpr fun c hc => decide_eq_true (hmark c hc).2.2.1
  have hall : digits.all Text.isAsciiDigit := List.all_eq_true.mpr h
  have hfirst : digits.head? ≠ some '_' := fun hc => (hmark _ (List.mem_of_head? hc)).2.2.1 rfl
  have hlast : digits.getLast? ≠ some '_' :=
    fun hc => (hmark _ (List.mem_of_getLast? hc)).2.2.1 rfl
  have hdoubled (p : Char × Char → Bool) (hp : ∀ pair, p pair → pair.1 = '_') :
      (digits.zip (digits.drop 1)).any p = false :=
    List.any_eq_false.mpr fun pair hpair hdouble =>
      (hmark _ (List.of_mem_zip hpair).1).2.2.1 (hp pair hdouble)
  have hempty : digits.isEmpty = false := List.isEmpty_eq_false_iff.mpr hne
  unfold integerText?
  simp only [htrim]
  -- the first character is a digit, so there is no sign
  split
  · exact absurd rfl (hmark '-' List.mem_cons_self).2.2.2.1
  · exact absurd rfl (hmark '+' List.mem_cons_self).2.2.2.2
  · simp only [hwhole, hzeros, hdigits, hall, hempty, decide_eq_true hfirst, decide_eq_true hlast]
    rw [hdoubled]
    · rfl
    · intro pair hpair
      exact of_decide_eq_true (Bool.and_eq_true_iff.mp hpair).1

/-- The digits of a number are as good as the number. -/
theorem checkInteger_decimal : (text (Text.decimal n)).checkInteger = .ok (n : Int) := by
  rw [checkInteger, integerText?_digits (Text.decimal_ne_nil n)
    (Text.isAsciiDigit_of_mem_decimal n),
    Text.numeralValue_decimal]

end Datum

end Abnf
