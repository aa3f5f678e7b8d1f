import Abnf.Text.Numeral
import Abnf.Text.CharKind
import Mathlib.Algebra.Group.Nat.Defs
import Mathlib.Data.List.Basic
import Mathlib.Data.List.Induction

/-!
# Writing numbers and reading them back

A number that has been written in decimal or in hexadecimal is read back as what it was, and zeros
in front make no difference.
-/

namespace Abnf.Text

variable {base n : Nat} {digits digits' : List Char} {c : Char}

theorem numeralValue_append (digits : List Char) (c : Char) :
    numeralValue base (digits ++ [c]) = numeralValue base digits * base + digitValue c := by
  rw [numeralValue, List.foldl_append]
  rfl

/-- The digits of hexadecimal and their capitals. -/
theorem digitChar_spec (h : n < 16) : digitValue n.digitChar = n ∧ isHexDigit n.digitChar ∧
    digitValue n.digitChar.toUpper = n ∧ isHexDigit n.digitChar.toUpper ∧
      (n < 10 → isAsciiDigit n.digitChar) := by
  revert n
  decide

/-- The digits of a number, from the last one on. -/
theorem toDigits_induction {motive : Nat → List Char → Prop} (hbase : 1 < base)
    (small : ∀ n < base, motive n [n.digitChar])
    (large : ∀ n d, d < base → motive n (Nat.toDigits base n) →
      motive (base * n + d) (Nat.toDigits base n ++ [d.digitChar])) (n : Nat) :
    motive n (Nat.toDigits base n) := by
  induction n using Nat.strongRecOn with
  | ind n ih =>
    by_cases h : n < base
    · rw [Nat.toDigits_of_lt_base h]
      exact small n h
    · have hle := Nat.le_of_not_lt h
      have hdiv : n / base < n := Nat.div_lt_self (by omega) hbase
      have := large (n / base) (n % base) (Nat.mod_lt _ (by omega)) (ih _ hdiv)
      rw [Nat.div_add_mod] at this
      rw [Nat.toDigits_of_base_le hbase hle]
      exact this

theorem numeralValue_toDigits (hbase : 1 < base) (hle : base ≤ 16) (n : Nat) :
    numeralValue base (Nat.toDigits base n) = n := by
  refine toDigits_induction (motive := fun n digits => numeralValue base digits = n) hbase
    (fun n hn => ?_) (fun n d hd ih => ?_) n
  · have hdigit := digitChar_spec (n := n) (by omega)
    simp [numeralValue, hdigit.1]
  · have hdigit := digitChar_spec (n := d) (by omega)
    rw [numeralValue_append, ih, hdigit.1, Nat.mul_comm]

/-- Whatever holds of the digits of a base holds of the digits of a number in it. -/
theorem forall_mem_toDigits {p : Char → Prop} (hbase : 1 < base) (hp : ∀ d < base, p d.digitChar)
    (n : Nat) : ∀ c ∈ Nat.toDigits base n, p c := by
  refine toDigits_induction (motive := fun _ digits => ∀ c ∈ digits, p c) hbase
    (fun n hn => ?_) (fun n d hd ih => ?_) n
  · simpa using hp n hn
  · intro c hc
    rcases List.mem_append.mp hc with hc | hc
    · exact ih c hc
    · obtain rfl := List.mem_singleton.mp hc
      exact hp d hd

theorem numeralValue_decimal (n : Nat) : numeralValue 10 (decimal n) = n :=
  numeralValue_toDigits (by decide) (by decide) n

theorem isAsciiDigit_of_mem_decimal (n : Nat) : ∀ c ∈ decimal n, isAsciiDigit c :=
  forall_mem_toDigits (by decide) (fun _ h => (digitChar_spec (by omega)).2.2.2.2 h) n

theorem decimal_ne_nil (n : Nat) : decimal n ≠ [] := Nat.toDigits_ne_nil

theorem numeralValue_replicate_zero (k : Nat) (digits : List Char) :
    numeralValue base (List.replicate k '0' ++ digits) = numeralValue base digits := by
  induction k with
  | zero => rfl
  | succ k ih =>
    have hzero : 0 * base + digitValue '0' = 0 := by rw [Nat.zero_mul]; rfl
    rw [← ih, List.replicate_succ, List.cons_append, numeralValue, List.foldl_cons, hzero]
    rfl

theorem isAsciiDigit_iff : isAsciiDigit c ↔ 48 ≤ c.toNat ∧ c.toNat ≤ 57 := by
  rw [isAsciiDigit, Bool.and_eq_true, decide_eq_true_eq, decide_eq_true_eq]
  rfl

theorem digitValue_of_isAsciiDigit (h : isAsciiDigit c) :
    digitValue c = c.toNat - 48 ∧ 48 ≤ c.toNat ∧ c.toNat ≤ 57 := by
  obtain ⟨hleast, hmost⟩ := Bool.and_eq_true_iff.mp h
  exact ⟨if_pos (of_decide_eq_true hmost), of_decide_eq_true hleast, of_decide_eq_true hmost⟩

theorem digitValue_lt_of_isHexDigit (h : isHexDigit c) : digitValue c < 16 := by
  have hle {d e : Char} : d ≤ e ↔ d.toNat ≤ e.toNat := Iff.rfl
  simp only [isHexDigit, Bool.or_eq_true, Bool.and_eq_true, decide_eq_true_eq, hle] at h
  simp only [digitValue, hle]
  have hbounds : '0'.toNat = 48 ∧ '9'.toNat = 57 ∧ 'A'.toNat = 65 ∧ 'F'.toNat = 70 ∧
    'a'.toNat = 97 ∧ 'f'.toNat = 102 := by decide
  split
  · omega
  · split <;> omega

/-- So many digits are not enough for a one with as many zeros. -/
theorem numeralValue_lt_pow (h : ∀ c ∈ digits, digitValue c < base) :
    numeralValue base digits < base ^ digits.length := by
  induction digits using List.reverseRecOn with
  | nil => exact Nat.one_pos
  | append_singleton digits c ih =>
    rw [List.forall_mem_append, List.forall_mem_singleton] at h
    have hlast := h.2
    rw [numeralValue_append, List.length_append, List.length_singleton, Nat.pow_succ]
    calc numeralValue base digits * base + digitValue c
      _ < numeralValue base digits * base + base := by omega
      _ = (numeralValue base digits + 1) * base := (Nat.succ_mul ..).symm
      _ ≤ base ^ digits.length * base := Nat.mul_le_mul_right _ (ih h.1)

theorem numeralValue_lt (h : ∀ c ∈ digits, isAsciiDigit c) :
    numeralValue 10 digits < 10 ^ digits.length := by
  refine numeralValue_lt_pow fun c hc => ?_
  have hdigit := digitValue_of_isAsciiDigit (h c hc)
  omega

/-- Numerals of equal length differ in value if they differ at all. -/
theorem numeralValue_inj (h : ∀ c ∈ digits, isAsciiDigit c) (h' : ∀ c ∈ digits', isAsciiDigit c)
    (hlength : digits.length = digits'.length)
    (hvalue : numeralValue 10 digits = numeralValue 10 digits') : digits = digits' := by
  induction digits using List.reverseRecOn generalizing digits' with
  | nil => exact (List.length_eq_zero_iff.mp hlength.symm).symm
  | append_singleton digits c ih =>
    obtain rfl | ⟨digits', d, rfl⟩ := List.eq_nil_or_concat digits'
    · simp at hlength
    rw [List.concat_eq_append] at *
    rw [List.forall_mem_append, List.forall_mem_singleton] at h h'
    rw [numeralValue_append, numeralValue_append] at hvalue
    obtain ⟨hc, hcleast, hcmost⟩ := digitValue_of_isAsciiDigit h.2
    obtain ⟨hd, hdleast, hdmost⟩ := digitValue_of_isAsciiDigit h'.2
    have hinit := ih h.1 h'.1 (by simpa using hlength) (by omega)
    have hlast : c = d := Char.toNat_inj.mp (by omega)
    rw [hinit, hlast]

/-- Digits are what their value is written as, with zeros in front. -/
theorem leftpad_decimal_numeralValue (hne : digits ≠ []) (h : ∀ c ∈ digits, isAsciiDigit c) :
    (decimal (numeralValue 10 digits)).leftpad digits.length '0' = digits := by
  have hfits : (decimal (numeralValue 10 digits)).length ≤ digits.length :=
    (Nat.length_toDigits_le_iff (by decide) (List.length_pos_iff.mpr hne)).mpr (numeralValue_lt h)
  refine numeralValue_inj ?_ h ?_ ?_
  · intro c hc
    rcases List.mem_append.mp hc with hc | hc
    · obtain rfl := List.eq_of_mem_replicate hc
      rfl
    · exact isAsciiDigit_of_mem_decimal _ c hc
  · rw [List.leftpad, List.length_append, List.length_replicate]
    omega
  · rw [List.leftpad, numeralValue_replicate_zero, numeralValue_decimal]

theorem numeralValue_hexadecimal (width n : Nat) : numeralValue 16 (hexadecimal width n) = n := by
  rw [hexadecimal, List.leftpad, numeralValue_replicate_zero]
  exact numeralValue_toDigits (by decide) (by decide) n

theorem isHexDigit_of_mem_hexadecimal (width n : Nat) :
    ∀ c ∈ hexadecimal width n, isHexDigit c := by
  intro c hc
  rcases List.mem_append.mp hc with hc | hc
  · obtain rfl := List.eq_of_mem_replicate hc
    rfl
  · exact forall_mem_toDigits (p := fun c => isHexDigit c) (by decide)
      (fun _ h => (digitChar_spec h).2.1) n c hc

/-- Capital digits say the same. -/
theorem numeralValue_map_toUpper (n : Nat) :
    numeralValue 16 ((Nat.toDigits 16 n).map Char.toUpper) = n := by
  have hcapital : ∀ d : Nat, d < 16 → digitValue d.digitChar.toUpper = digitValue d.digitChar :=
    fun d hd =>
    (digitChar_spec hd).2.2.1.trans (digitChar_spec hd).1.symm
  have hdigits : ∀ c ∈ Nat.toDigits 16 n, digitValue c.toUpper = digitValue c :=
    forall_mem_toDigits (by decide) hcapital n
  calc numeralValue 16 ((Nat.toDigits 16 n).map Char.toUpper)
    _ = (Nat.toDigits 16 n).foldl (fun value c => value * 16 + digitValue c.toUpper) 0 :=
      List.foldl_map
    _ = numeralValue 16 (Nat.toDigits 16 n) :=
      List.foldl_ext _ _ _ fun value c hc => by rw [hdigits c hc]
    _ = n := numeralValue_toDigits (by decide) (by decide) n

theorem isHexDigit_of_mem_map_toUpper (n : Nat) :
    ∀ c ∈ (Nat.toDigits 16 n).map Char.toUpper, isHexDigit c := by
  have hcapital : ∀ d : Nat, d < 16 → isHexDigit d.digitChar.toUpper := fun d hd =>
    (digitChar_spec hd).2.2.2.1
  exact List.forall_mem_map.mpr
    (forall_mem_toDigits (p := fun c => isHexDigit c.toUpper) (by decide) hcapital n)

/-- A number that fits into a width has that width. -/
theorem length_hexadecimal {width : Nat} (hwidth : 0 < width) (hn : n < 16 ^ width) :
    (hexadecimal width n).length = width := by
  have hle := (Nat.length_toDigits_le_iff (n := n) (by decide) hwidth).mpr hn
  rw [hexadecimal, List.leftpad, List.length_append, List.length_replicate]
  omega

end Abnf.Text
