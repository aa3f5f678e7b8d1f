import Abnf.Proofs.HttpDate.Agreement
import Abnf.Proofs.Text.LowerCase
import Mathlib.Tactic

/-!
# Which dates are instants

Three things know what a date is. The grammar allows 31 days in any month, a year zero and a leap
second; the bounds of the fields allow the same; the calendar and the clock allow neither. The
calendar here is the one of the standard library, which reckons the Gregorian rules back to all
years, so that what the length of a month is does not rest on the function that is used
(`daysInMonth_eq_lastDay`).

An instant is known by its numbers, and they are known by the text: each part of a date is told by
its number except for the case of letters, and only the name of the day has no number
(`Part.number_eq_iff`).
-/

namespace Abnf.HttpDate

open Text

variable {u v text other : List Char} {date date' : HttpDate} {n : DateNumbers}
  {words words' : Words} {pieces : List Piece} {part : Part} {cause : NoInstant}

/-! ## The calendar -/

/-- The last day of a month in the calendar. What is no month has no days. -/
def lastDay (year month : Int) : Int :=
  if h : 1 ≤ month ∧ month ≤ 12 then
    ((Std.Time.Month.Ordinal.ofInt month h).days (Std.Time.Year.Offset.ofInt year).isLeap).val
  else 0

theorem isLeapYear_eq (year : Int) :
    isLeapYear year = (Std.Time.Year.Offset.ofInt year).isLeap := by
  have hdvd (m : Int) : Int.tmod year m = 0 ↔ year % m = 0 := by
    rw [← Int.dvd_iff_tmod_eq_zero, Int.dvd_iff_emod_eq_zero]
  rw [isLeapYear, Std.Time.Year.Offset.isLeap, Bool.eq_iff_iff]
  simp [Std.Time.Year.Offset.toInt, Std.Time.Year.Offset.ofInt, hdvd]

/-- The length of a month is the one that the calendar has. -/
theorem daysInMonth_eq_lastDay {year month : Int} (h : DateField.month.Holds month) :
    daysInMonth year month = lastDay year month := by
  obtain ⟨hleast, hmost⟩ : 1 ≤ month ∧ month ≤ 12 := h
  rw [daysInMonth, lastDay, dif_pos ⟨hleast, hmost⟩, isLeapYear_eq]
  generalize (Std.Time.Year.Offset.ofInt year).isLeap = leap
  interval_cases month <;> cases leap <;> rfl

/-- The numbers of an instant: a day of the calendar, and a time that a clock shows. -/
structure IsInstant (n : DateNumbers) : Prop where
  year : 1 ≤ n.year ∧ n.year ≤ 9999
  month : 1 ≤ n.month ∧ n.month ≤ 12
  day : 1 ≤ n.day ∧ n.day ≤ lastDay n.year n.month
  hour : 0 ≤ n.hour ∧ n.hour ≤ 23
  minute : 0 ≤ n.minute ∧ n.minute ≤ 59
  second : 0 ≤ n.second ∧ n.second ≤ 59

/-! ## What stands in the way -/

/-- What makes the numbers of a date no instant. -/
def NoInstant.Stands (n : DateNumbers) : NoInstant → Prop
  | yearZero => n.year < 1
  | dayOfMonth => lastDay n.year n.month < n.day
  | leapSecond => n.second = 60

instance (n : DateNumbers) (cause : NoInstant) : Decidable (cause.Stands n) :=
  match cause with
  | .yearZero => inferInstanceAs (Decidable (_ < _))
  | .dayOfMonth => inferInstanceAs (Decidable (_ < _))
  | .leapSecond => inferInstanceAs (Decidable (_ = _))

/-- The order in which it is looked for. -/
def NoInstant.order : List NoInstant := [yearZero, dayOfMonth, leapSecond]

/-- The first thing that stands in the way, if there is one. -/
def NoInstant.first? (n : DateNumbers) : Option NoInstant := order.find? fun cause => cause.Stands n

/-- Numbers that are within the bounds of a date. -/
structure WithinBounds (n : DateNumbers) : Prop where
  day : DateField.day.Holds n.day
  month : DateField.month.Holds n.month
  year : DateField.year.Holds n.year
  hour : DateField.hour.Holds n.hour
  minute : DateField.minute.Holds n.minute
  second : DateField.second.Holds n.second

/-- A date is an instant unless something stands in the way; the first such thing is reported. -/
theorem toInstant_eq (h : WithinBounds date.numbers) : date.toInstant =
    match NoInstant.first? date.numbers with
    | some cause => .error cause
    | none => .ok date.numbers := by
  have hsecond : 59 < date.numbers.second ↔ date.numbers.second = 60 := by
    have hmost : date.numbers.second ≤ 60 := h.second.2
    omega
  simp only [toInstant, NoInstant.first?, NoInstant.order, List.find?_cons, NoInstant.Stands,
    daysInMonth_eq_lastDay h.month, hsecond]
  by_cases hyear : date.numbers.year < 1
  · simp [hyear]
  · by_cases hday : lastDay date.numbers.year date.numbers.month < date.numbers.day
    · simp [hyear, hday]
    · by_cases hleap : date.numbers.second = 60 <;> simp [hyear, hday, hleap]

theorem first?_eq_none : NoInstant.first? n = none ↔
    1 ≤ n.year ∧ n.day ≤ lastDay n.year n.month ∧ n.second ≠ 60 := by
  have hnone : NoInstant.first? n = none ↔ ∀ cause ∈ NoInstant.order, ¬ cause.Stands n := by
    simp only [NoInstant.first?, List.find?_eq_none, decide_eq_true_eq]
  rw [hnone]
  simp only [NoInstant.order, List.forall_mem_cons, List.not_mem_nil, false_imp_iff, implies_true,
    and_true, NoInstant.Stands, not_lt, ne_eq]

/-- Within the bounds of a date, an instant is what nothing stands in the way of. -/
theorem isInstant_iff (h : WithinBounds n) : IsInstant n ↔ NoInstant.first? n = none := by
  rw [first?_eq_none]
  have hsecond : n.second ≤ 60 := h.second.2
  constructor
  · intro hinstant
    have hclock := hinstant.second
    exact ⟨hinstant.year.1, hinstant.day.2, by omega⟩
  · rintro ⟨hyear, hday, hleap⟩
    exact {
      year := ⟨hyear, h.year.2⟩
      month := h.month
      day := ⟨h.day.1, hday⟩
      hour := h.hour
      minute := h.minute
      second := ⟨h.second.1, by omega⟩ }

/-! ## What the text tells -/

theorem Words.Fit.withinBounds (h : words.Fit layout) : WithinBounds words.date.numbers := by
  have hholds (part : Part) : part.Holds (part.number (words part)) :=
    Part.holds_of_isText (h part (by cases part <;> decide))
  exact {
    day := hholds .day
    month := hholds .month
    year := hholds .year
    hour := hholds .hour
    minute := hholds .minute
    second := hholds .second }

theorem not_isLetter_of_isAsciiDigit {c : Char} (h : isAsciiDigit c) :
    ¬ Grammar.Token.isLetter c := by
  simp only [isAsciiDigit, Grammar.Token.isLetter, Bool.or_eq_true, Bool.and_eq_true,
    decide_eq_true_eq, le_iff_toNat_le] at h ⊢
  have hbounds : '9'.toNat = 57 ∧ 'A'.toNat = 65 ∧ 'a'.toNat = 97 := by decide
  omega

/-- Texts in one case are names of the same. -/
theorem isName_congr (h : lowerCase u = lowerCase v) : isName u = isName v := by
  have hlower : u.map asciiLower = v.map asciiLower := h
  funext name
  rw [isName, isName, hlower]

/-- **The number of a part tells the part**, but for the case of its letters. -/
theorem Part.number_eq_iff (hname : part ≠ .dayName) (hu : part.isText u) (hv : part.isText v) :
    part.number u = part.number v ↔ lowerCase u = lowerCase v := by
  -- a month is told by its name in any case, every other part by its digits, which have no case
  by_cases hmonth : part = .month
  · subst hmonth
    have hspec := (monthNumber_spec hu).2.2
    have hspec' := (monthNumber_spec hv).2.2
    constructor
    · intro hnumber
      have hnumber : (monthNumber u : Int) = monthNumber v := hnumber
      rw [hnumber] at hspec
      exact (isName_iff.mp hspec).trans (isName_iff.mp hspec').symm
    · intro hlower
      rw [number, number, monthNumber, monthNumber, isName_congr hlower]
  · have hdigits {w : List Char} (hw : part.isText w) : lowerCase w = w :=
      lowerCase_eq_self fun c hc =>
        not_isLetter_of_isAsciiDigit (Part.forall_isAsciiDigit hname hmonth hw c hc)
    rw [hdigits hu, hdigits hv]
    refine ⟨fun hnumber => ?_, fun heq => by rw [heq]⟩
    rw [← padded_number hname hmonth hu, hnumber, padded_number hname hmonth hv]

/-- Pieces in a row are alike but for case if and only if their parts are. -/
theorem Words.Fit.lowerCase_write_eq_iff (h : words.Fit pieces) (h' : words'.Fit pieces) :
    lowerCase (words.write pieces) = lowerCase (words'.write pieces) ↔
      ∀ part ∈ Piece.parts pieces, lowerCase (words part) = lowerCase (words' part) := by
  induction pieces with
  | nil => simp [Words.write, Piece.parts]
  | cons piece pieces ih =>
    cases piece with
    | mark mark =>
      rw [Words.write, Words.write, lowerCase_append, lowerCase_append, List.append_cancel_left_eq]
      exact ih h h'
    | part part =>
      rw [Fit, Piece.parts, List.forall_mem_cons] at h h'
      -- parts have the same length in both, so the texts can be compared part by part
      have hlength : (lowerCase (words part)).length = (lowerCase (words' part)).length := by
        rw [length_lowerCase, length_lowerCase, Part.length_of_isText h.1,
          Part.length_of_isText h'.1]
      rw [Words.write, Words.write, lowerCase_append, lowerCase_append, Piece.parts,
        List.forall_mem_cons, ← ih h.2 h'.2]
      exact ⟨fun heq => List.append_inj heq hlength, fun heq => by rw [heq.1, heq.2]⟩

/-- All pieces but the name of the day. -/
def laterPieces : List Piece := layout.tail

theorem numbers_eq_iff : words.date.numbers = words'.date.numbers ↔
    ∀ part ∈ Piece.parts laterPieces, part.number (words part) = part.number (words' part) := by
  have hparts : Piece.parts laterPieces = [.day, .month, .year, .hour, .minute, .second] := rfl
  rw [hparts, DateNumbers.mk.injEq]
  simp only [List.forall_mem_cons, List.not_mem_nil, false_imp_iff, implies_true, and_true]
  rfl

theorem Words.Fit.numbers_eq_iff (h : words.Fit layout) (h' : words'.Fit layout) :
    words.date.numbers = words'.date.numbers ↔
      lowerCase (words.write laterPieces) = lowerCase (words'.write laterPieces) := by
  have hlater (w : Words) (hw : w.Fit layout) : w.Fit laterPieces := fun part hpart =>
    hw part (List.mem_cons_of_mem _ hpart)
  rw [(hlater _ h).lowerCase_write_eq_iff (hlater _ h'), HttpDate.numbers_eq_iff]
  refine forall₂_congr fun part hpart => ?_
  have hname : part ≠ .dayName := by
    rintro rfl
    exact absurd hpart (by decide)
  exact Part.number_eq_iff hname (hlater _ h part hpart) (hlater _ h' part hpart)

/-- What a text has behind the name of the day. -/
def behindDayName (date : HttpDate) (text : List Char) : List Char := text.drop date.dayName.length

/-- A date, what its words are, and where its name of the day ends. -/
theorem exists_words_behindDayName (h : parse text = .ok date) : ∃ words : Words,
    words.Fit layout ∧ date = words.date ∧ text = date.dayName ++ words.write laterPieces := by
  obtain ⟨words, hfit, rfl, rfl⟩ := exists_words h
  exact ⟨words, hfit, rfl, rfl⟩

/--
**Which dates are instants.** A text that is read as a date is an instant if and only if its year is
not the year zero, its month has its day in the calendar, and its second is no leap second; then it
is the instant of its numbers, and these are a day of the calendar and a time of the clock. If it is
none, the first of the three that stands in the way is reported. Two texts are the same instant if
and only if they are alike behind the name of the day, except for the case of letters.
-/
theorem toInstant_of_parse (h : parse text = .ok date) :
    ((∃ instant, date.toInstant = .ok instant) ↔ 1 ≤ date.numbers.year ∧
      date.numbers.day ≤ lastDay date.numbers.year date.numbers.month ∧
      date.numbers.second ≠ 60) ∧
    (∀ instant, date.toInstant = .ok instant → instant = date.numbers ∧ IsInstant instant) ∧
    (∀ cause, date.toInstant = .error cause ↔ NoInstant.first? date.numbers = some cause) ∧
    date.dayName <+: text ∧
    ∀ {other date'}, parse other = .ok date' → ∀ instant instant',
      date.toInstant = .ok instant → date'.toInstant = .ok instant' →
      (instant = instant' ↔
        lowerCase (behindDayName date text) = lowerCase (behindDayName date' other)) := by
  obtain ⟨words, hfit, hdate, htext⟩ := exists_words_behindDayName h
  -- a date that was read is within the bounds of its fields, so only the calendar can object
  have hbounds : WithinBounds date.numbers := by
    rw [hdate]
    exact hfit.withinBounds
  have hinstant := toInstant_eq hbounds
  have hnumbers {date : HttpDate} {instant : DateNumbers} (hok : date.toInstant = .ok instant) :
      instant = date.numbers := by
    simp only [toInstant] at hok
    split_ifs at hok
    exact (Except.ok.inj hok).symm
  have hfirst : (∃ instant, date.toInstant = .ok instant) ↔
      NoInstant.first? date.numbers = none := by
    rw [hinstant]
    cases NoInstant.first? date.numbers <;> simp
  refine ⟨hfirst.trans first?_eq_none, fun instant hok => ?_, fun cause => ?_, ?_, ?_⟩
  · obtain rfl := hnumbers hok
    exact ⟨rfl, (isInstant_iff hbounds).mpr (hfirst.mp ⟨_, hok⟩)⟩
  · rw [hinstant]
    cases NoInstant.first? date.numbers <;> simp
  · rw [htext]
    exact List.prefix_append ..
  · intro other date' h' instant instant' hok hok'
    obtain ⟨words', hfit', hdate', htext'⟩ := exists_words_behindDayName h'
    rw [hnumbers hok, hnumbers hok', behindDayName, behindDayName, htext, htext', List.drop_left,
      List.drop_left, hdate, hdate']
    exact hfit.numbers_eq_iff hfit'

/-- A leap day under two names of the day, and one that a century does not have. -/
theorem toInstant_of_parse_leapDay :
    ∃ date date' date'' : HttpDate,
      parse "Sat, 29 Feb 2020 08:30:00 GMT".toList = .ok date ∧
      parse "mon, 29 fEB 2020 08:30:00 GMT".toList = .ok date' ∧
      parse "Thu, 29 Feb 1900 08:30:60 GMT".toList = .ok date'' ∧
      date.toInstant = .ok ⟨29, 2, 2020, 8, 30, 0⟩ ∧
      date.toInstant = date'.toInstant ∧ date''.toInstant = .error .dayOfMonth := by
  have hdate : parse "Sat, 29 Feb 2020 08:30:00 GMT".toList =
      .ok ⟨"Sat".toList, ⟨29, 2, 2020, 8, 30, 0⟩⟩ := by decide +kernel
  have hdate' : parse "mon, 29 fEB 2020 08:30:00 GMT".toList =
      .ok ⟨"mon".toList, ⟨29, 2, 2020, 8, 30, 0⟩⟩ := by decide +kernel
  have hdate'' : parse "Thu, 29 Feb 1900 08:30:60 GMT".toList =
      .ok ⟨"Thu".toList, ⟨29, 2, 1900, 8, 30, 60⟩⟩ := by decide +kernel
  obtain ⟨hiff, hnumbers, -, -, hsame⟩ := toInstant_of_parse hdate
  obtain ⟨hiff', -, -, -, -⟩ := toInstant_of_parse hdate'
  obtain ⟨instant, hinstant⟩ := hiff.mpr (by decide)
  obtain ⟨instant', hinstant'⟩ := hiff'.mpr (by decide)
  have heq := (hsame hdate' _ _ hinstant hinstant').mpr (by decide)
  refine ⟨_, _, _, hdate, hdate', hdate'', ?_, ?_, ?_⟩
  · rw [hinstant, (hnumbers instant hinstant).1]
  · rw [hinstant, hinstant', heq]
  · exact ((toInstant_of_parse hdate'').2.2.1 .dayOfMonth).mpr (by decide)

end Abnf.HttpDate
