import Abnf.HttpDate.Reader
import Abnf.Proofs.Grammar.Flags
import Abnf.Proofs.Template.Room

/-!
# The parts of a date and their rules

The reader of dates tells the characters of a part itself, and the grammar of dates has a rule for
every part. `Part.expr` is what the rule of a part stands for in the compiled grammar
(`rules_rfc7231`), and its language is the texts that the reader takes for the part
(`Part.language_expr`), one construct of the grammar after the other.
-/

namespace Abnf.HttpDate

open Grammar Regex Token Bundled

variable {u : List Char} {a b c : Char}

/-! ## What the rules stand for -/

/-- Strings to choose from. -/
def choice (first : List Char) (more : List (List Char)) : Expr :=
  .anyOf (.literal first) (more.map .literal)

/-- Names to choose from. -/
def names (first : String) (more : List String) : Expr :=
  choice first.toList (more.map String.toList)

/-- Digits to choose from. -/
def digits (first : Char) (more : List Char) : Expr := choice [first] (more.map ([·]))

/-- Any digit. -/
def anyDigit : Expr := .core .digit

/-- What the rule of a minute stands for, which the rule of a second refers to. -/
def minuteExpr : Expr := .seq (digits '0' ['1', '2', '3', '4', '5']) anyDigit

/-- What the rule of a part stands for. -/
def Part.expr : Part → Expr
  | dayName => names "Mon" ["Tue", "Wed", "Thu", "Fri", "Sat", "Sun"]
  | day =>
    .anyOf (.seq (.literal ['0']) (digits '1' ['2', '3', '4', '5', '6', '7', '8', '9']))
      [.seq (digits '1' ['2']) anyDigit, .seq (.literal ['3']) (digits '0' ['1'])]
  | month =>
    names "Jan" ["Feb", "Mar", "Apr", "May", "Jun", "Jul", "Aug", "Sep", "Oct", "Nov", "Dec"]
  | year => .repeated (.exactly 4) anyDigit
  | hour =>
    .anyOf (.seq (digits '0' ['1']) anyDigit) [.seq (.literal ['2']) (digits '0' ['1', '2', '3'])]
  | minute => minuteExpr
  | second => .anyOf minuteExpr [.literal ['6', '0']]

/-- Expressions one after the other. -/
def inOrder (first : Expr) (more : List Expr) : Expr := more.foldl .seq first

/-- What the rule of a day of a year stands for. -/
def dateExpr : Expr :=
  inOrder Part.day.expr [.core .sp, Part.month.expr, .core .sp, Part.year.expr]

/-- What the rule of a time of the day stands for. -/
def timeExpr : Expr :=
  inOrder Part.hour.expr [.literal [':'], Part.minute.expr, .literal [':'], Part.second.expr]

/-- What the rule of the zone stands for. -/
def zoneExpr : Expr := .codes [0x47, 0x4D, 0x54]

/-- What the rule of a whole date stands for. -/
def fixdateExpr : Expr :=
  inOrder Part.dayName.expr
    [.literal [','], .core .sp, dateExpr, .core .sp, timeExpr, .core .sp, zoneExpr]

/-- The rules of dates in order, each with what it stands for. -/
def dateRules : Rules := [
  ("day-name".toList, Part.dayName.expr), ("day".toList, Part.day.expr),
  ("month".toList, Part.month.expr), ("year".toList, Part.year.expr),
  ("hour".toList, Part.hour.expr), ("minute".toList, Part.minute.expr),
  ("second".toList, Part.second.expr), ("date1".toList, dateExpr),
  ("time-of-day".toList, timeExpr), ("gmt".toList, zoneExpr),
  ("imf-fixdate".toList, fixdateExpr)]

-- the text of the grammar has to be unfolded into its characters
set_option maxRecDepth 20000 in
/-- The grammar of dates is compiled to these rules. -/
theorem rules_rfc7231 [Interpreter] : Bundled.rules .rfc7231 = .ok dateRules := by
  have htext : rfc7231Text.toList = _ := String.toList_ofList
  refine Bundled.rules_of_least ?_
  unfold Bundled.rules
  rw [htext]
  decide +kernel

theorem proper_dateRules : ∀ rule ∈ dateRules, rule.2.Proper (fun _ => False) false := by decide

theorem Part.proper_expr (part : Part) : part.expr.Proper (fun _ => False) false := by
  cases part <;> decide

/-! ## Their languages -/

theorem mem_sum_language {exprs : List Expr} :
    u ∈ (exprs.map Expr.language).sum ↔ ∃ e ∈ exprs, u ∈ e.language := by
  induction exprs with
  | nil => simp
  | cons e exprs ih =>
    rw [List.map_cons, List.sum_cons, Language.mem_add, ih, List.exists_mem_cons_iff]

theorem mem_language_anyOf {first : Expr} {more : List Expr} :
    u ∈ (Expr.anyOf first more).language ↔ ∃ e ∈ first :: more, u ∈ e.language := by
  rw [Expr.language_anyOf, Language.mem_add, mem_sum_language, List.exists_mem_cons_iff]

theorem mem_language_choice {first : List Char} {more : List (List Char)} :
    u ∈ (choice first more).language ↔ ∃ s ∈ first :: more, u ∈ inAnyCase s := by
  rw [choice, mem_language_anyOf, List.exists_mem_cons_iff, List.exists_mem_cons_iff]
  simp only [List.mem_map, exists_exists_and_eq_and]
  rfl

theorem mem_language_names {first : String} {more : List String} :
    u ∈ (names first more).language ↔ (first :: more).any (isName u) := by
  rw [names, mem_language_choice, ← List.map_cons, List.any_eq_true]
  simp only [List.mem_map, exists_exists_and_eq_and, isName, decide_eq_true_eq]
  rfl

theorem inAnyCase_digit (h : ¬ isLetter c) : inAnyCase [c] = oneOf (· = c) := by
  rw [inAnyCase_cons, inAnyCase_nil, mul_one]
  simp only [asciiLower_eq_iff_of_not_isLetter h]

theorem language_digits (first : Char) (more : List Char)
    (h : (first :: more).all (!isLetter ·)) :
    (digits first more).language = oneOf (· ∈ first :: more) := by
  ext u
  rw [digits, mem_language_choice, ← List.map_cons (f := ([·]))]
  simp only [List.mem_map, exists_exists_and_eq_and]
  constructor
  · rintro ⟨c, hc, hu⟩
    have hletter := List.all_eq_true.mp h c hc
    rw [inAnyCase_digit (by simpa using hletter)] at hu
    obtain ⟨d, rfl, rfl⟩ := hu
    exact ⟨d, rfl, hc⟩
  · rintro ⟨c, rfl, hc⟩
    exact ⟨c, hc, rfl⟩

theorem language_anyDigit : anyDigit.language = oneOf fun c => Text.isAsciiDigit c :=
  CoreRule.language_digit

/-! ## The texts that the reader takes -/

theorem le_iff_toNat_le : a ≤ b ↔ a.toNat ≤ b.toNat := Iff.rfl

theorem isText_day : Part.day.isText [a, b] ↔
    (a = '0' ∧ b ∈ ['1', '2', '3', '4', '5', '6', '7', '8', '9']) ∨
      (a ∈ ['1', '2'] ∧ Text.isAsciiDigit b) ∨ (a = '3' ∧ b ∈ ['0', '1']) := by
  simp [Part.isText, Text.isAsciiDigit, le_iff_toNat_le, ← Char.toNat_inj]
  omega

theorem isText_hour : Part.hour.isText [a, b] ↔
    (a ∈ ['0', '1'] ∧ Text.isAsciiDigit b) ∨ (a = '2' ∧ b ∈ ['0', '1', '2', '3']) := by
  simp [Part.isText, isUpTo, Text.isAsciiDigit, le_iff_toNat_le, ← Char.toNat_inj]
  omega

theorem isText_minute : Part.minute.isText [a, b] ↔
    a ∈ ['0', '1', '2', '3', '4', '5'] ∧ Text.isAsciiDigit b := by
  simp [Part.isText, isUpTo, Text.isAsciiDigit, le_iff_toNat_le, ← Char.toNat_inj]
  omega

theorem isText_second : Part.second.isText u ↔ Part.minute.isText u ∨ u = ['6', '0'] := by
  unfold Part.isText
  split <;> simp_all

theorem isText_year : Part.year.isText u ↔ u.length = 4 ∧ ∀ c ∈ u, Text.isAsciiDigit c := by
  constructor
  · intro h
    match u with
    | [a, b, c, d] => exact ⟨rfl, List.all_eq_true.mp h⟩
  · rintro ⟨hlength, hall⟩
    match u with
    | [a, b, c, d] => exact List.all_eq_true.mpr hall

/-- A part of two digits is told by them. -/
theorem Part.isText_iff_of_width (part : Part) (hwidth : part.width = 2) :
    part.isText u ↔ ∃ a b, u = [a, b] ∧ part.isText [a, b] := by
  constructor
  · intro h
    match part, u with
    | .day, [a, b] | .hour, [a, b] | .minute, [a, b] | .second, [a, b] => exact ⟨a, b, rfl, h⟩
  · rintro ⟨a, b, rfl, h⟩
    exact h

theorem inAnyCase_sixty : inAnyCase ['6', '0'] = {['6', '0']} := by
  ext u
  rw [inAnyCase_cons, inAnyCase_digit (by decide)]
  simp only [asciiLower_eq_iff_of_not_isLetter (c := '6') (by decide)]
  rw [mem_oneOf_mul]
  constructor
  · rintro ⟨_, _, rfl, rfl, rfl⟩
    rfl
  · rintro rfl
    exact ⟨_, _, rfl, rfl, rfl⟩

theorem mem_minuteExpr : u ∈ minuteExpr.language ↔ Part.minute.isText u := by
  rw [Part.isText_iff_of_width _ rfl, minuteExpr, Expr.language, language_digits _ _ (by decide),
    language_anyDigit, mem_oneOf_mul]
  simp only [isText_minute]

/-- The texts that the reader takes for a part. -/
def Part.language (part : Part) : Language Char := {u | part.isText u}

/-- **The rule of a part matches what the reader takes for the part.** -/
theorem Part.language_expr (part : Part) : part.expr.language = part.language := by
  ext u
  change u ∈ part.expr.language ↔ part.isText u
  -- names are choices of strings; the two digits of a number are bounded together, so both sides
  -- are taken apart into their first and second digit
  cases part with
  | dayName => exact mem_language_names
  | month => exact mem_language_names
  | minute => exact mem_minuteExpr
  | day =>
    rw [isText_iff_of_width _ rfl, expr, mem_language_anyOf]
    simp only [List.exists_mem_cons_iff, List.not_mem_nil, false_and, exists_false, or_false,
      Expr.language, inAnyCase_digit (c := '0') (by decide), inAnyCase_digit (c := '3') (by decide),
      language_digits '1' ['2'] (by decide),
      language_digits '0' ['1'] (by decide),
      language_digits '1' ['2', '3', '4', '5', '6', '7', '8', '9'] (by decide),
      language_anyDigit, mem_oneOf_mul, isText_day, and_or_left, exists_or]
  | hour =>
    rw [isText_iff_of_width _ rfl, expr, mem_language_anyOf]
    simp only [List.exists_mem_cons_iff, List.not_mem_nil, false_and, exists_false, or_false,
      Expr.language, inAnyCase_digit (c := '2') (by decide),
      language_digits '0' ['1'] (by decide),
      language_digits '0' ['1', '2', '3'] (by decide),
      language_anyDigit, mem_oneOf_mul, isText_hour, and_or_left, exists_or]
  | second =>
    rw [expr, mem_language_anyOf, List.exists_mem_cons_iff, mem_minuteExpr, isText_second]
    simp only [List.exists_mem_cons_iff, List.not_mem_nil, false_and, exists_false, or_false,
      Expr.language, inAnyCase_sixty]
    rfl
  | year =>
    rw [expr, Expr.language, language_anyDigit, mem_copies_oneOf, isText_year]
    simp only [Repeat.least, Repeat.most, Option.mem_some_iff, forall_eq']
    constructor
    · rintro ⟨hleast, hmost, hall⟩
      exact ⟨Nat.le_antisymm hmost hleast, hall⟩
    · rintro ⟨hlength, hall⟩
      exact ⟨hlength.ge, hlength.le, hall⟩

end Abnf.HttpDate
