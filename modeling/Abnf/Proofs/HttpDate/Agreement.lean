import Abnf.HttpDate.Instant
import Abnf.Proofs.Cursor.Runs
import Abnf.Proofs.Datum.Checked
import Abnf.Proofs.HttpDate.Parts
import Abnf.Proofs.Text.Numeral

/-!
# The reader of dates and the grammar of dates

The reader goes through a date piece by piece and never goes back; the grammar is one expression for
the whole of it. Both are a product of the languages of the same pieces: the reader by `readPieces`,
which is `parse` as a loop over the pieces, and the grammar by `language_fixdateExpr`. So they
take the same texts (`parse_agrees`).

What the reader gives is what was written. The texts of the parts are kept by part in `Words`, and
the numbers of a date, written with zeros in front, are the digits that were read.
-/

namespace Abnf.HttpDate

open Grammar Regex

variable {part : Part} {mark u v text : List Char} {position : Nat} {cs : List Char}

/-! ## One piece -/

theorem isName_iff {name : String} :
    isName u name ↔ u.map Text.asciiLower = name.toList.map Text.asciiLower := decide_eq_true_iff

theorem length_of_isName {names : List String} {n : Nat} (hnames : ∀ s ∈ names, s.toList.length = n)
    (h : names.any (isName u)) : u.length = n := by
  obtain ⟨name, hname, hu⟩ := List.any_eq_true.mp h
  have hlength := congrArg List.length (isName_iff.mp hu)
  rw [List.length_map, List.length_map] at hlength
  exact hlength.trans (hnames name hname)

/-- A part has as many characters as are looked at. -/
theorem Part.length_of_isText (h : part.isText u) : u.length = part.width := by
  cases part with
  | dayName => exact length_of_isName (by decide) h
  | month => exact length_of_isName (by decide) h
  | year => exact (isText_year.mp h).1
  | day | hour | minute | second =>
    obtain ⟨a, b, rfl, -⟩ := (isText_iff_of_width _ rfl).mp h
    rfl

theorem readPart_append (h : part.isText u) (position : Nat) (v : List Char) :
    readPart part position (u ++ v) = .ok (u, position + part.width, v) := by
  have htake : (u ++ v).take part.width = u := List.take_left' (Part.length_of_isText h)
  have hdrop : (u ++ v).drop part.width = v := List.drop_left' (Part.length_of_isText h)
  rw [readPart, htake, hdrop]
  exact if_pos h

/-- A part is read, or there is none and the reading ends. -/
theorem readPart_cases (part : Part) (position : Nat) (cs : List Char) :
    (∃ u v, cs = u ++ v ∧ part.isText u) ∨
      readPart part position cs = refuse (.expectedPart part) position := by
  by_cases h : part.isText (cs.take part.width)
  · exact .inl ⟨_, _, (List.take_append_drop ..).symm, h⟩
  · exact .inr (if_neg h)

/--
A part is read as a cursor takes it with the rule of the part. All texts of a part have one length,
so that the rule has no choice of where to stop.
-/
theorem readPart_eq_match? (part : Part) (c : Cursor) :
    readPart part c.position c.after =
      match c.match? (part.expr.pattern {}) with
      | some (found, d) => .ok (found.whole, d.position, d.after)
      | none => refuse (.expectedPart part) c.position := by
  have hdenotes : Denotes (part.expr.pattern {}).node part.language := by
    have hproper := part.proper_expr.denotes
    rwa [part.language_expr, ← part.expr.seen_false] at hproper
  rcases Cursor.match?_cases hdenotes c with ⟨hnone, hfront⟩ | ⟨found, d, hsome, hu, hadvances⟩
  · rw [hnone]
    rcases readPart_cases part c.position c.after with ⟨u, v, hafter, hu⟩ | hrefuse
    · exact absurd ⟨v, hafter.symm⟩ (hfront u hu)
    · exact hrefuse
  · have hposition : d.position = c.position + part.width := by
      rw [hadvances.position_eq, Part.length_of_isText hu]
    rw [hsome, hadvances.after, readPart_append hu, ← hposition]

theorem readMark_append (mark : List Char) (position : Nat) (v : List Char) :
    readMark mark position (mark ++ v) = .ok (position + mark.length, v) := by
  rw [readMark, if_pos (List.isPrefixOf_iff_prefix.mpr (List.prefix_append ..)), List.drop_left]

theorem readMark_cases (mark : List Char) (position : Nat) (cs : List Char) :
    (∃ v, cs = mark ++ v) ∨ readMark mark position cs = refuse (.expectedMark mark) position := by
  by_cases h : mark.isPrefixOf cs
  · obtain ⟨v, rfl⟩ := List.isPrefixOf_iff_prefix.mp h
    exact .inl ⟨v, rfl⟩
  · exact .inr (if_neg h)

/-! ## Pieces in a row -/

/-- What a date is made of. -/
inductive Piece where
  | part (part : Part)
  | mark (mark : List Char)

/-- The pieces of a date in order. -/
def layout : List Piece := [
  .part .dayName, .mark [',', ' '], .part .day, .mark [' '], .part .month, .mark [' '],
  .part .year, .mark [' '], .part .hour, .mark [':'], .part .minute, .mark [':'], .part .second,
  .mark [' ', 'G', 'M', 'T']]

namespace Piece

/-- The texts of a piece. -/
def language : Piece → Language Char
  | .part part => part.language
  | .mark mark => {mark}

/-- The parts among some pieces. -/
def parts : List Piece → List Part
  | [] => []
  | .part part :: pieces => part :: parts pieces
  | .mark _ :: pieces => parts pieces

end Piece

/-- A text for every part. -/
abbrev Words := Part → List Char

namespace Words

/-- The words with another one for a part. -/
def set (words : Words) (part : Part) (u : List Char) : Words :=
  fun other => if other = part then u else words other

/-- Pieces in a row, written with these words. -/
def write (words : Words) : List Piece → List Char
  | [] => []
  | .part part :: pieces => words part ++ words.write pieces
  | .mark mark :: pieces => mark ++ words.write pieces

/-- The parts among some pieces are all told by their words. -/
def Fit (words : Words) (pieces : List Piece) : Prop :=
  ∀ part ∈ Piece.parts pieces, part.isText (words part)

end Words

/-- Reads pieces in a row; the words of the parts among them are kept. -/
def readPieces (words : Words) :
    List Piece → Nat → List Char → Except Fault (Words × Nat × List Char)
  | [], position, cs => .ok (words, position, cs)
  | .part part :: pieces, position, cs => do
    let (u, position, cs) ← readPart part position cs
    readPieces (words.set part u) pieces position cs
  | .mark mark :: pieces, position, cs => do
    let (position, cs) ← readMark mark position cs
    readPieces words pieces position cs

variable {words words' : Words} {pieces : List Piece} {rest : List Char} {last : Nat}

theorem readPieces_part (h : part.isText u) : readPieces words (.part part :: pieces) position
    (u ++ v) = readPieces (words.set part u) pieces (position + part.width) v := by
  rw [readPieces, readPart_append h]
  rfl

theorem readPieces_mark : readPieces words (.mark mark :: pieces) position (mark ++ v) =
    readPieces words pieces (position + mark.length) v := by
  rw [readPieces, readMark_append]
  rfl

/-- A text of all the pieces in a row is read. -/
theorem exists_readPieces (hu : u ∈ (pieces.map Piece.language).prod) (words : Words)
    (position : Nat) (rest : List Char) :
    ∃ words' last, readPieces words pieces position (u ++ rest) = .ok (words', last, rest) := by
  -- piece by piece: what a piece reads does not depend on what follows
  induction pieces generalizing u words position with
  | nil =>
    obtain rfl := (Language.mem_one u).mp hu
    exact ⟨words, position, rfl⟩
  | cons piece pieces ih =>
    rw [List.map_cons, List.prod_cons, Language.mem_mul] at hu
    obtain ⟨a, ha, b, hb, rfl⟩ := hu
    rw [List.append_assoc]
    cases piece with
    | part part =>
      rw [readPieces_part ha]
      exact ih hb _ _
    | mark mark =>
      obtain rfl : a = mark := ha
      rw [readPieces_mark]
      exact ih hb _ _

/--
**Reading pieces keeps what was written.** The text is the pieces in a row, written with words that
tell their parts, and no other words are touched, if no part is read twice.
-/
theorem readPieces_sound (hparts : (Piece.parts pieces).Nodup)
    (h : readPieces words pieces position cs = .ok (words', last, rest)) :
    cs = words'.write pieces ++ rest ∧ words'.Fit pieces ∧
      ∀ part ∉ Piece.parts pieces, words' part = words part := by
  induction pieces generalizing words position cs with
  | nil =>
    cases h
    exact ⟨rfl, List.forall_mem_nil _, fun _ _ => rfl⟩
  | cons piece pieces ih =>
    cases piece with
    | part part =>
      rw [Piece.parts] at hparts ⊢
      obtain ⟨hnew, hparts⟩ := List.nodup_cons.mp hparts
      rcases readPart_cases part position cs with ⟨u, v, rfl, hu⟩ | hnone
      · rw [readPieces_part hu] at h
        obtain ⟨hwrite, hfit, hkeep⟩ := ih hparts h
        -- the part is not among the pieces that follow, so its word stays
        have hword : words' part = u := (hkeep part hnew).trans (if_pos rfl)
        refine ⟨?_, ?_, ?_⟩
        · rw [Words.write, hword, List.append_assoc, ← hwrite]
        · intro other hother
          rcases List.mem_cons.mp hother with rfl | hother
          · rwa [hword]
          · exact hfit other hother
        · intro other hother
          rw [List.mem_cons, not_or] at hother
          exact (hkeep other hother.2).trans (if_neg hother.1)
      · rw [readPieces, hnone] at h
        cases h
    | mark mark =>
      rcases readMark_cases mark position cs with ⟨v, rfl⟩ | hnone
      · rw [readPieces_mark] at h
        obtain ⟨hwrite, hfit, hkeep⟩ := ih hparts h
        refine ⟨?_, hfit, hkeep⟩
        rw [Words.write, List.append_assoc, ← hwrite]
      · rw [readPieces, hnone] at h
        cases h

/-- When the reading of pieces ends early, the text is unreadable from there on. -/
theorem readPieces_error {fault : Fault} (h : readPieces words pieces position cs = .error fault) :
    ∃ cause at_, fault = .unreadable cause at_ := by
  induction pieces generalizing words position cs with
  | nil => cases h
  | cons piece pieces ih =>
    cases piece with
    | part part =>
      rcases readPart_cases part position cs with ⟨u, v, rfl, hu⟩ | hnone
      · rw [readPieces_part hu] at h
        exact ih h
      · rw [readPieces, hnone] at h
        cases h
        exact ⟨_, _, rfl⟩
    | mark mark =>
      rcases readMark_cases mark position cs with ⟨v, rfl⟩ | hnone
      · rw [readPieces_mark] at h
        exact ih h
      · rw [readPieces, hnone] at h
        cases h
        exact ⟨_, _, rfl⟩

/-- Words that tell their parts are a text of all the pieces in a row. -/
theorem Words.Fit.write_mem (h : words.Fit pieces) :
    words.write pieces ∈ (pieces.map Piece.language).prod := by
  induction pieces with
  | nil => exact Language.nil_mem_one
  | cons piece pieces ih =>
    rw [List.map_cons, List.prod_cons]
    cases piece with
    | part part =>
      rw [Fit, Piece.parts, List.forall_mem_cons] at h
      exact Language.append_mem_mul h.1 (ih h.2)
    | mark mark => exact Language.append_mem_mul rfl (ih h)

/-! ## The numbers of parts -/

theorem value_pair {a b : Char} (ha : Text.isAsciiDigit a) (hb : Text.isAsciiDigit b) :
    value [a, b] = 10 * (a.toNat - 48 : Nat) + (b.toNat - 48 : Nat) := by
  have ha := (Text.digitValue_of_isAsciiDigit ha).1
  have hb := (Text.digitValue_of_isAsciiDigit hb).1
  simp only [value, Text.numeralValue, List.foldl_cons, List.foldl_nil, ha, hb]
  omega

theorem Part.forall_isAsciiDigit (hname : part ≠ .dayName) (hmonth : part ≠ .month)
    (h : part.isText u) : ∀ c ∈ u, Text.isAsciiDigit c := by
  cases part with
  | dayName => exact absurd rfl hname
  | month => exact absurd rfl hmonth
  | year => exact (isText_year.mp h).2
  | day | hour | minute | second =>
    obtain ⟨a, b, rfl, h⟩ := (isText_iff_of_width _ rfl).mp h
    simp [isText, isUpTo, Text.isAsciiDigit, le_iff_toNat_le, ← Char.toNat_inj] at h ⊢
    omega

/-- The name of a month by number, counted from one. -/
def monthName (number : Int) : String := (Bundled.monthNames[(number - 1).toNat]?).getD ""

/-- A name of a month is the name of the month whose number it has. -/
theorem monthNumber_spec (h : Part.month.isText u) :
    1 ≤ monthNumber u ∧ monthNumber u ≤ 12 ∧ isName u (monthName (monthNumber u)) := by
  have hsome : (Bundled.monthNames.findIdx? (isName u)).isSome := by
    rw [List.findIdx?_isSome]
    exact h
  obtain ⟨i, hi⟩ := Option.isSome_iff_exists.mp hsome
  obtain ⟨hlt, hname, -⟩ := List.findIdx?_eq_some_iff_getElem.mp hi
  have hnumber : monthNumber u = i + 1 := by
    rw [monthNumber, hi]
    rfl
  have hlength : Bundled.monthNames.length = 12 := rfl
  have hindex : ((monthNumber u : Int) - 1).toNat = i := by omega
  refine ⟨by omega, by omega, ?_⟩
  rw [monthName, hindex, List.getElem?_eq_getElem hlt]
  exact hname

namespace Part

/-- The number of a part. -/
def number : Part → List Char → Int
  | month, u => monthNumber u
  | _, u => value u

/-- What a date asks of the number of a part. -/
def Holds : Part → Int → Prop
  | dayName => fun _ => True
  | day => DateField.day.Holds
  | month => DateField.month.Holds
  | year => DateField.year.Holds
  | hour => DateField.hour.Holds
  | minute => DateField.minute.Holds
  | second => DateField.second.Holds

/-- **What is read is within the bounds of a date.** -/
theorem holds_of_isText (h : part.isText u) : part.Holds (part.number u) := by
  cases part with
  | dayName => trivial
  | month =>
    have hnumber := monthNumber_spec h
    exact ⟨show (1 : Int) ≤ monthNumber u by omega, show (monthNumber u : Int) ≤ 12 by omega⟩
  | year =>
    obtain ⟨hlength, hdigits⟩ := isText_year.mp h
    have hlt := Text.numeralValue_lt hdigits
    rw [hlength] at hlt
    have hle : (Text.numeralValue 10 u : Int) ≤ 9999 := by omega
    exact ⟨Int.natCast_nonneg _, hle⟩
  | day | hour | minute | second =>
    obtain ⟨a, b, rfl, h⟩ := (isText_iff_of_width _ rfl).mp h
    have hdigits := forall_isAsciiDigit (by decide) (by decide) h
    have hvalue := value_pair (hdigits a (by simp)) (hdigits b (by simp))
    simp [isText, isUpTo, Text.isAsciiDigit, le_iff_toNat_le, ← Char.toNat_inj] at h
    simp only [Holds, DateField.Holds, DateField.day, DateField.hour, DateField.minute,
      DateField.second, number, hvalue]
    omega

/-- The number of a part, with zeros in front, is the part as it was read. -/
theorem padded_number (hname : part ≠ .dayName) (hmonth : part ≠ .month) (h : part.isText u) :
    padded part.width (part.number u) = u := by
  have hdigits := forall_isAsciiDigit hname hmonth h
  have hlength := length_of_isText h
  have hne : u ≠ [] := by
    rintro rfl
    cases part <;> cases hlength
  have hnumber : part.number u = value u := by
    cases part with
    | month => exact absurd rfl hmonth
    | _ => rfl
  rw [hnumber, padded, value, Int.toNat_natCast, ← hlength]
  exact Text.leftpad_decimal_numeralValue hne hdigits

end Part

/-! ## The whole date -/

/-- The date of words. -/
def Words.date (words : Words) : HttpDate where
  dayName := words .dayName
  numbers := {
    day := value (words .day)
    month := monthNumber (words .month)
    year := value (words .year)
    hour := value (words .hour)
    minute := value (words .minute)
    second := value (words .second) }

/-- The number of a field of a date of words. -/
def Words.number (words : Words) (field : DateField) : Int :=
  if field = .day then value (words .day)
  else if field = .month then monthNumber (words .month)
  else if field = .year then value (words .year)
  else if field = .hour then value (words .hour)
  else if field = .minute then value (words .minute)
  else value (words .second)

/-- What is made of words when their pieces have been read. -/
def Words.finish (words : Words) (position : Nat) (rest : List Char) : Except Fault HttpDate :=
  if !rest.isEmpty then refuse .trailing position
  else
    (assemble (.ok (words .dayName)) fun field => field.check (words.number field)).mapError
      .invalid

/-- A date is read as a loop over its pieces. -/
theorem parse_eq (text : List Char) : parse text = (do
    let (words, position, rest) ← readPieces (fun _ => []) layout 0 text
    words.finish position rest) := by
  unfold parse layout
  simp only [readPieces, bind_assoc]
  rfl

theorem DateField.check_eq_ok {field : DateField} {m n : Int} :
    field.check n = .ok m ↔ n = m ∧ field.Holds m := by
  rw [DateField.check, DateField.Holds]
  split
  · simp only [Checked.refuse, reduceCtorEq, false_iff]
    omega
  · split
    · simp only [Checked.refuse, reduceCtorEq, false_iff]
      omega
    · simp only [Except.ok.injEq]
      omega

/-- A date is made when all its parts are. -/
theorem assemble_eq_ok {dayName : Checked (List Char)} {number : DateField → Checked Int}
    {date : HttpDate} : assemble dayName number = .ok date ↔
    dayName = .ok date.dayName ∧ number .day = .ok date.numbers.day ∧
      number .month = .ok date.numbers.month ∧ number .year = .ok date.numbers.year ∧
      number .hour = .ok date.numbers.hour ∧ number .minute = .ok date.numbers.minute ∧
      number .second = .ok date.numbers.second := by
  obtain ⟨name, day, month, year, hour, minute, second⟩ := date
  simp only [← Checked.both_eq_ok]
  rw [assemble]
  split
  · next heq => simp [heq]
  · next heq => simp [heq]

/-- Words that tell all parts make a date. -/
theorem Words.finish_of_fit (h : words.Fit layout) (position : Nat) :
    words.finish position [] = .ok words.date := by
  have hholds (part : Part) : part.Holds (part.number (words part)) :=
    Part.holds_of_isText (h part (by cases part <;> decide))
  have hdate : (assemble (.ok (words .dayName)) fun field => field.check (words.number field)) =
      .ok words.date :=
    assemble_eq_ok.mpr ⟨rfl, DateField.check_eq_ok.mpr ⟨rfl, hholds .day⟩,
      DateField.check_eq_ok.mpr ⟨rfl, hholds .month⟩,
      DateField.check_eq_ok.mpr ⟨rfl, hholds .year⟩,
      DateField.check_eq_ok.mpr ⟨rfl, hholds .hour⟩,
      DateField.check_eq_ok.mpr ⟨rfl, hholds .minute⟩,
      DateField.check_eq_ok.mpr ⟨rfl, hholds .second⟩⟩
  show (assemble _ fun field => field.check (words.number field)).mapError _ = _
  rw [hdate]
  rfl

theorem nodup_parts_layout : (Piece.parts layout).Nodup := by decide

/-- A text of all the pieces is a date. -/
theorem exists_parse (h : text ∈ (layout.map Piece.language).prod) :
    ∃ date, parse text = .ok date := by
  obtain ⟨words, last, hread⟩ := exists_readPieces h (fun _ => []) 0 []
  rw [List.append_nil] at hread
  have hfit := (readPieces_sound nodup_parts_layout hread).2.1
  refine ⟨words.date, ?_⟩
  rw [parse_eq, hread]
  exact Words.finish_of_fit hfit last

/-- A date is made of words that tell its parts, and the text is these words in the layout. -/
theorem exists_words {date : HttpDate} (h : parse text = .ok date) :
    ∃ words : Words, words.Fit layout ∧ text = words.write layout ∧ date = words.date := by
  rw [parse_eq] at h
  obtain ⟨⟨words, last, rest⟩, hread, hfinish⟩ := Except.bind_eq_ok.mp h
  obtain ⟨hwrite, hfit, -⟩ := readPieces_sound nodup_parts_layout hread
  cases rest with
  | nil =>
    have hdate := (Words.finish_of_fit hfit last).symm.trans hfinish
    cases hdate
    exact ⟨words, hfit, by rwa [List.append_nil] at hwrite, rfl⟩
  | cons c rest => cases hfinish

/-- What is no date is unreadable: what can be read is within the bounds of a date. -/
theorem exists_cause {fault : Fault} (h : parse text = .error fault) :
    ∃ cause position, fault = .unreadable cause position := by
  rw [parse_eq] at h
  rcases Except.bind_eq_error.mp h with h | ⟨⟨words, last, rest⟩, hread, hfinish⟩
  · exact readPieces_error h
  · have hfit := (readPieces_sound nodup_parts_layout hread).2.1
    cases rest with
    | nil => cases (Words.finish_of_fit hfit last).symm.trans hfinish
    | cons c rest =>
      cases hfinish
      exact ⟨_, _, rfl⟩

/-! ## The rule of a date -/

theorem singleton_append (u v : List Char) : ({u ++ v} : Language Char) = {u} * {v} := by
  ext w
  rw [Language.mem_mul]
  constructor
  · rintro rfl
    exact ⟨u, rfl, v, rfl, rfl⟩
  · rintro ⟨_, rfl, _, rfl, rfl⟩
    rfl

theorem language_space : (Expr.core .sp).language = {[' ']} := by
  rw [← oneOf_eq]
  ext u
  refine exists_congr fun c => and_congr_right fun _ => ?_
  simp [Text.Ranges.has_iff, ← Char.toNat_inj]
  omega

theorem language_zoneExpr : zoneExpr.language = {['G', 'M', 'T']} :=
  ofCodes_map_toNat ['G', 'M', 'T']

theorem language_inOrder (first : Expr) (more : List Expr) :
    (inOrder first more).language = first.language * (more.map Expr.language).prod := by
  induction more generalizing first with
  | nil => exact (mul_one _).symm
  | cons second more ih =>
    rw [List.map_cons, List.prod_cons, ← mul_assoc]
    exact ih (.seq first second)

/-- **The rule of a date stands for the pieces in a row.** -/
theorem language_fixdateExpr : fixdateExpr.language = (layout.map Piece.language).prod := by
  have hmark (c : Char) (h : ¬ Token.isLetter c) : (Expr.literal [c]).language = {[c]} := by
    rw [Expr.language, inAnyCase_digit h, oneOf_eq]
  have hcomma : ({[',', ' ']} : Language Char) = {[',']} * {[' ']} := singleton_append [','] [' ']
  have hzone : ({[' ', 'G', 'M', 'T']} : Language Char) = {[' ']} * {['G', 'M', 'T']} :=
    singleton_append [' '] ['G', 'M', 'T']
  have hcolon := hmark ':' (by decide)
  simp only [fixdateExpr, dateExpr, timeExpr, language_inOrder, List.map_cons, List.map_nil,
    List.prod_cons, List.prod_nil, mul_one, mul_assoc, Part.language_expr, hmark ',' (by decide),
    hcolon, language_space, language_zoneExpr, layout, Piece.language, hcomma, hzone]

/-! ## Agreement -/

/-- A date as it is written, with a name for its month. -/
def written (date : HttpDate) (month : List Char) : List Char :=
  date.dayName ++ [',', ' '] ++ padded 2 date.numbers.day ++ [' '] ++ month ++ [' ']
    ++ padded 4 date.numbers.year ++ [' '] ++ padded 2 date.numbers.hour ++ [':']
    ++ padded 2 date.numbers.minute ++ [':'] ++ padded 2 date.numbers.second
    ++ [' ', 'G', 'M', 'T']

/-- The date of words is written as it was read, with its month in the case that was read. -/
theorem Words.Fit.written_date (h : words.Fit layout) :
    written words.date (words .month) = words.write layout := by
  have hword (part : Part) (hname : part ≠ .dayName) (hmonth : part ≠ .month) :
      padded part.width (part.number (words part)) = words part :=
    Part.padded_number hname hmonth (h part (by cases part <;> decide))
  have hday : padded 2 words.date.numbers.day = words .day := hword .day (by decide) (by decide)
  have hyear : padded 4 words.date.numbers.year = words .year := hword .year (by decide) (by decide)
  have hhour : padded 2 words.date.numbers.hour = words .hour := hword .hour (by decide) (by decide)
  have hminute : padded 2 words.date.numbers.minute = words .minute :=
    hword .minute (by decide) (by decide)
  have hsecond : padded 2 words.date.numbers.second = words .second :=
    hword .second (by decide) (by decide)
  rw [written, hday, hyear, hhour, hminute, hsecond]
  simp only [layout, Words.write, List.append_assoc, List.append_nil]
  rfl

/--
The reader of dates takes exactly the texts that the rule of a date matches as a whole, and
everything else is unreadable. What it gives is what was written: the fields, written out again with
zeros in front of the numbers and the name that the month has by number, are the text that was read,
except for the case of the letters of that name.
-/
theorem parse_agrees [Interpreter] : ∃ (patterns : List (Name × Pattern)) (pattern : Pattern),
    (do (← Bundled.rules .rfc7231).patterns {}) = .ok patterns ∧
    patterns.lookup "imf-fixdate".toList = some pattern ∧
    ∀ text,
      ((∃ date, parse text = .ok date) ↔ (pattern.fullMatch? text).isSome) ∧
      ((pattern.fullMatch? text).isNone →
        ∃ cause position, parse text = .error (.unreadable cause position)) ∧
      ∀ date, parse text = .ok date →
        ∃ month, isName month (monthName date.numbers.month) ∧ text = written date month := by
  have hpatterns : dateRules.patterns {} =
      .ok (dateRules.map fun rule => (rule.1, rule.2.pattern {})) :=
    Rules.patterns_eq proper_dateRules rfl rfl
  -- the rule that the compiler makes denotes the texts that are written piece by piece
  have hlanguage (text : List Char) : ((fixdateExpr.pattern {}).fullMatch? text).isSome ↔
      text ∈ (layout.map Piece.language).prod := by
    have hproper := proper_dateRules ("imf-fixdate".toList, fixdateExpr) (by decide)
    rw [hproper.fullMatch?_pattern rfl, Expr.seen_false, language_fixdateExpr]
  refine ⟨dateRules.map fun rule => (rule.1, rule.2.pattern {}), fixdateExpr.pattern {}, ?_, ?_, ?_⟩
  · exact Except.bind_eq_ok.mpr ⟨dateRules, rules_rfc7231, hpatterns⟩
  · rfl
  · intro text
    have hiff : (∃ date, parse text = .ok date) ↔
        ((fixdateExpr.pattern {}).fullMatch? text).isSome := by
      rw [hlanguage]
      constructor
      · rintro ⟨date, hdate⟩
        obtain ⟨words, hfit, rfl, -⟩ := exists_words hdate
        exact hfit.write_mem
      · exact exists_parse
    refine ⟨hiff, ?_, ?_⟩
    · intro hnone
      cases hparse : parse text with
      | ok date =>
        have hsome := hiff.mp ⟨date, hparse⟩
        rw [← Option.not_isSome, hsome] at hnone
        cases hnone
      | error fault =>
        obtain ⟨cause, position, rfl⟩ := exists_cause hparse
        exact ⟨cause, position, rfl⟩
    · intro date hdate
      obtain ⟨words, hfit, rfl, rfl⟩ := exists_words hdate
      have hmonth : Part.month.isText (words .month) := hfit .month (by decide)
      exact ⟨words .month, (monthNumber_spec hmonth).2.2, hfit.written_date.symm⟩

end Abnf.HttpDate
