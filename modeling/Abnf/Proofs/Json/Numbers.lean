import Abnf.Proofs.Cursor.Runs
import Abnf.Proofs.Grammar.Predictive
import Abnf.Proofs.Json.Scanning
import Abnf.Proofs.Template.Room

/-!
# Numbers and their rule

The grammar of JSON has a rule for numbers, and a cursor may be asked for it anywhere in a text. A
pattern takes its first way, so an optional fraction or exponent is left out where the digits behind
the point or the letter are missing, and it is to be shown that no longer number is missed by that.
The next character decides at every step of the rule (`predictive_lexicalRules`), which is why none
is.

The reader of JSON has no pattern. It takes the parts of a number one after the other, each as long
as it can be, and comes to the same (`numeral?_cases`, `left_numeral?_eq`), because there too the
next character decides: no text of one part goes on with what may start the next (`separate_parts`).
-/

namespace Abnf.Json

open Grammar Regex

variable {u cs ds es rest tail : List Char} {c : Char}

/-! ## What the rules stand for -/

def minusExpr : Expr := .codes [0x2D]

def plusExpr : Expr := .codes [0x2B]

def zeroExpr : Expr := .codes [0x30]

def leadingDigitExpr : Expr := .range 0x31 0x39

def pointExpr : Expr := .codes [0x2E]

/-- The letter of an exponent. -/
def letterExpr : Expr := .grouped (.alt (.codes [0x65]) (.codes [0x45]))

/-- Digits, at least one. -/
def digitsExpr : Expr := .repeated (.atLeast 1) (.core .digit)

/-- The integer digits. -/
def wholeExpr : Expr :=
  .grouped (.alt zeroExpr (.seq leadingDigitExpr (.repeated .any (.core .digit))))

def fractionExpr : Expr := .seq pointExpr digitsExpr

def signExpr : Expr := .grouped (.alt minusExpr plusExpr)

def exponentExpr : Expr := .seq (.seq letterExpr (.optional signExpr)) digitsExpr

def numberExpr : Expr :=
  .seq (.seq (.seq (.optional minusExpr) wholeExpr) (.optional fractionExpr))
    (.optional exponentExpr)

def spaceExpr : Expr :=
  .repeated .any
    (.grouped (.alt (.codes [0x20]) (.alt (.codes [0x09]) (.alt (.codes [0x0A]) (.codes [0x0D])))))

def unescapedExpr : Expr :=
  .grouped (.alt (.range 0x20 0x21) (.alt (.range 0x23 0x5B) (.range 0x5D 0x10FFFF)))

/-- The lexical rules in order, each with what it stands for. -/
def lexicalRules : Rules := [
  ("ws".toList, spaceExpr), ("minus".toList, minusExpr), ("plus".toList, plusExpr),
  ("zero".toList, zeroExpr), ("digit1-9".toList, leadingDigitExpr),
  ("decimal-point".toList, pointExpr), ("e".toList, letterExpr), ("int".toList, wholeExpr),
  ("frac".toList, fractionExpr), ("exp".toList, exponentExpr), ("number".toList, numberExpr),
  ("unescaped".toList, unescapedExpr)]

-- the text of the grammar has to be unfolded into its characters
set_option maxRecDepth 20000 in
/-- The grammar of JSON is compiled to these rules. -/
theorem rules_rfc8259 [Interpreter] : Bundled.rules .rfc8259 = .ok lexicalRules := by
  have htext : Bundled.rfc8259Text.toList = _ := String.toList_ofList
  refine Bundled.rules_of_least ?_
  unfold Bundled.rules
  rw [htext]
  decide +kernel

theorem proper_lexicalRules : ∀ rule ∈ lexicalRules, rule.2.Proper (fun _ => False) false := by
  decide

/-- **In every rule the next character decides whether to go on, and with what.** -/
theorem predictive_lexicalRules : ∀ rule ∈ lexicalRules, rule.2.Predictive := by decide

/-- The patterns of the rules. -/
theorem patterns_rfc8259 [Interpreter] : (do (← Bundled.rules .rfc8259).patterns {}) =
    .ok (lexicalRules.map fun rule => (rule.1, rule.2.pattern {})) :=
  Except.bind_eq_ok.mpr ⟨lexicalRules, rules_rfc8259, Rules.patterns_eq proper_lexicalRules rfl rfl⟩

theorem predictive_numberExpr : numberExpr.Predictive :=
  predictive_lexicalRules ("number".toList, numberExpr) (by decide)

theorem proper_numberExpr : numberExpr.Proper (fun _ => False) false :=
  proper_lexicalRules ("number".toList, numberExpr) (by decide)

/-! ## Their languages -/

/-- The texts that are numbers. -/
def numbers : Language Char := {u | ∃ n, NumberText n u}

/-- `[ minus ]` -/
def minuses : Language Char := {u | ∃ negative, u = minusText negative}

/-- `int` -/
def wholes : Language Char := {u | WholeText u}

/-- `[ frac ]` -/
def fractions : Language Char := {u | ∃ f, FractionText f u}

/-- `[ minus / plus ]` -/
def signs : Language Char := {u | ∃ negative, SignText negative u}

/-- `[ exp ]` -/
def exponents : Language Char := {u | ∃ e, ExponentText e u}

theorem numbers_eq : numbers = minuses * wholes * fractions * exponents := by
  rw [mul_assoc, mul_assoc]
  ext w
  constructor
  · rintro ⟨n, hwhole, hfraction, hexponent⟩
    exact Language.append_mem_mul ⟨n.negative, rfl⟩ (Language.append_mem_mul hwhole
      (Language.append_mem_mul ⟨n.fraction, hfraction⟩ ⟨n.exponent, hexponent⟩))
  · intro hw
    obtain ⟨_, ⟨negative, rfl⟩, left, hleft, rfl⟩ := Language.mem_mul.mp hw
    obtain ⟨ds, hwhole, tail, htail, rfl⟩ := Language.mem_mul.mp hleft
    obtain ⟨u, ⟨f, hfraction⟩, v, ⟨e, hexponent⟩, rfl⟩ := Language.mem_mul.mp htail
    exact ⟨⟨negative, ds, f, e⟩, .mk hwhole hfraction hexponent⟩

theorem mem_language_digits : u ∈ digitsExpr.language ↔ Digits u := by
  rw [digitsExpr, Expr.language, Expr.language, CoreRule.language_digit, mem_copies_oneOf, Digits,
    ← List.length_pos_iff]
  exact and_congr_right fun _ => and_iff_right fun m hm => absurd hm (Option.not_mem_none m)

theorem language_minusExpr : minusExpr.language = {['-']} := ofCodes_map_toNat ['-']

theorem language_minus : (Expr.optional minusExpr).language = minuses := by
  ext u
  rw [Expr.mem_language_optional, language_minusExpr]
  constructor
  · rintro (rfl | rfl)
    · exact ⟨false, rfl⟩
    · exact ⟨true, rfl⟩
  · rintro ⟨negative, rfl⟩
    cases negative with
    | false => exact .inl rfl
    | true => exact .inr rfl

theorem leadingDigit_iff : 0x31 ≤ c.toNat ∧ c.toNat ≤ 0x39 ↔ Text.isAsciiDigit c ∧ c ≠ '0' := by
  have hcode : '0'.toNat = 48 := rfl
  rw [Text.isAsciiDigit_iff, ne_eq, ← Char.toNat_inj]
  omega

theorem language_whole : wholeExpr.language = wholes := by
  have hzero : zeroExpr.language = {['0']} := ofCodes_map_toNat ['0']
  have hleading : leadingDigitExpr.language = oneOf fun c => Text.isAsciiDigit c ∧ c ≠ '0' :=
    congrArg oneOf (funext fun c => propext leadingDigit_iff)
  ext u
  rw [wholeExpr, Expr.language, Expr.language, Language.mem_add, hzero, Expr.language, hleading,
    mem_oneOf_cons, Expr.language, Expr.language, CoreRule.language_digit]
  simp only [mem_copies_oneOf]
  constructor
  · rintro (rfl | ⟨c, ds, rfl, hc, -, -, hds⟩)
    · exact .zero
    · exact .more hc.1 hc.2 hds
  · intro h
    cases h with
    | zero => exact .inl rfl
    | @more c ds hdigit hne hds =>
      have hbound : ∀ m ∈ Repeat.any.most, ds.length ≤ m := fun m hm =>
        absurd hm (Option.not_mem_none m)
      exact .inr ⟨c, ds, rfl, ⟨hdigit, hne⟩, Nat.zero_le _, hbound, hds⟩

theorem language_fraction : (Expr.optional fractionExpr).language = fractions := by
  have hpoint : pointExpr.language = oneOf (· = '.') := by
    rw [oneOf_eq]
    exact ofCodes_map_toNat ['.']
  ext u
  rw [Expr.mem_language_optional, fractionExpr, Expr.language, hpoint, mem_oneOf_cons]
  simp only [mem_language_digits]
  constructor
  · rintro (rfl | ⟨_, ds, rfl, rfl, hds⟩)
    · exact ⟨none, .absent⟩
    · exact ⟨some ds, .present hds⟩
  · rintro ⟨f, hf⟩
    cases hf with
    | absent => exact .inl rfl
    | @present ds hds => exact .inr ⟨'.', ds, rfl, rfl, hds⟩

theorem language_sign : (Expr.optional signExpr).language = signs := by
  have hplus : plusExpr.language = {['+']} := ofCodes_map_toNat ['+']
  ext u
  rw [Expr.mem_language_optional, signExpr, Expr.language, Expr.language, Language.mem_add,
    language_minusExpr, hplus]
  constructor
  · rintro (rfl | rfl | rfl)
    · exact ⟨false, .absent⟩
    · exact ⟨true, .minus⟩
    · exact ⟨false, .plus⟩
  · rintro ⟨negative, hsign⟩
    cases hsign with
    | absent => exact .inl rfl
    | minus => exact .inr (.inl rfl)
    | plus => exact .inr (.inr rfl)

theorem language_letter : letterExpr.language = oneOf (· ∈ ['e', 'E']) := by
  have hsmall : (Expr.codes [0x65]).language = {['e']} := ofCodes_map_toNat ['e']
  have hcapital : (Expr.codes [0x45]).language = {['E']} := ofCodes_map_toNat ['E']
  ext u
  rw [letterExpr, Expr.language, Expr.language, Language.mem_add, hsmall, hcapital]
  constructor
  · rintro (rfl | rfl)
    · exact ⟨'e', rfl, by decide⟩
    · exact ⟨'E', rfl, by decide⟩
  · rintro ⟨c, rfl, hc⟩
    rcases List.mem_pair.mp hc with rfl | rfl
    · exact .inl rfl
    · exact .inr rfl

theorem language_exponent : (Expr.optional exponentExpr).language = exponents := by
  ext u
  rw [Expr.mem_language_optional, exponentExpr, Expr.language, Expr.language, language_letter,
    language_sign, mul_assoc, mem_oneOf_cons]
  constructor
  · rintro (rfl | ⟨letter, tail, rfl, hletter, htail⟩)
    · exact ⟨none, .absent⟩
    · obtain ⟨u, ⟨negative, hsign⟩, ds, hds, rfl⟩ := Language.mem_mul.mp htail
      exact ⟨some (negative, ds), .present hletter hsign (mem_language_digits.mp hds)⟩
  · rintro ⟨e, he⟩
    cases he with
    | absent => exact .inl rfl
    | @present letter negative u ds hletter hsign hds =>
      exact .inr ⟨letter, u ++ ds, rfl, hletter,
        Language.append_mem_mul ⟨negative, hsign⟩ (mem_language_digits.mpr hds)⟩

/-- **The rule of a number stands for the numbers.** -/
theorem language_numberExpr : numberExpr.language = numbers := by
  rw [numberExpr, Expr.language, Expr.language, Expr.language, language_minus, language_whole,
    language_fraction, language_exponent, numbers_eq]

/-! ## The reader -/

/-- Where digits come next, no fewer of them are taken. -/
theorem Digits.taken (h : Digits es) (hdigits : digits (es ++ tail) = (ds, rest)) :
    ds ≠ [] ∧ es.length ≤ ds.length := by
  obtain ⟨rfl, -⟩ := Prod.mk.inj hdigits
  rw [List.takeWhile_append_of_pos h.2, List.length_append]
  exact ⟨List.append_ne_nil_of_left_ne_nil h.1 _, Nat.le_add_right ..⟩

theorem WholeText.digits (h : WholeText ds) : Digits ds := by
  cases h with
  | zero => exact ⟨List.cons_ne_nil _ _, List.forall_mem_singleton.mpr (by decide)⟩
  | more hc _ hds => exact ⟨List.cons_ne_nil _ _, List.forall_mem_cons.mpr ⟨hc, hds⟩⟩

theorem whole?_isLongest (h : whole? cs = some (ds, rest)) : IsLongest wholes cs ds := by
  obtain ⟨hwhole, hcs⟩ := exists_of_whole? h
  refine ⟨hwhole, ⟨rest, hcs.symm⟩, ?_⟩
  rintro es hes ⟨tail, rfl⟩
  unfold whole? at h
  split at h
  · rename_i hzero
    cases h
    -- nothing goes on behind a zero, and nothing else starts with one
    cases hes with
    | zero => exact Nat.le_refl 1
    | more _ hne => exact absurd (List.cons.inj hzero).1 hne
  · split at h
    · cases h
    · exact (WholeText.digits hes).taken (Option.some.inj h) |>.2

theorem not_whole_of_whole? (h : whole? cs = none) : ∀ u ∈ wholes, ¬ u <+: cs := by
  rintro es hes ⟨tail, rfl⟩
  unfold whole? at h
  split at h
  · cases h
  · split at h
    · rename_i hdigits
      exact ((WholeText.digits hes).taken hdigits).1 rfl
    · cases h

theorem fraction?_isLongest {f : Option (List Char)} (h : fraction? cs = (f, rest)) :
    ∃ u, FractionText f u ∧ cs = u ++ rest ∧ IsLongest fractions cs u := by
  obtain ⟨u, hu, hcs⟩ := exists_of_fraction? h
  refine ⟨u, hu, hcs, ⟨f, hu⟩, ⟨rest, hcs.symm⟩, ?_⟩
  rintro v ⟨g, hv⟩ ⟨tail, rfl⟩
  cases hv with
  | absent => exact Nat.zero_le _
  | @present es hes =>
    rw [List.cons_append, fraction?] at h
    split at h
    · rename_i hdigits
      exact absurd rfl (hes.taken hdigits).1
    · rename_i hdigits
      cases h
      cases hu with
      | present => exact Nat.succ_le_succ (hes.taken hdigits).2

theorem exponent?_isLongest {e : Option (Bool × List Char)} (h : exponent? cs = (e, rest)) :
    ∃ u, ExponentText e u ∧ cs = u ++ rest ∧ IsLongest exponents cs u := by
  obtain ⟨u, hu, hcs⟩ := exists_of_exponent? h
  refine ⟨u, hu, hcs, ⟨e, hu⟩, ⟨rest, hcs.symm⟩, ?_⟩
  rintro v ⟨g, hv⟩ ⟨tail, rfl⟩
  cases hv with
  | absent => exact Nat.zero_le _
  | @present letter negative sign es hletter hsign hes =>
    have htext : letter :: (sign ++ es) ++ tail = letter :: (sign ++ (es ++ tail)) := by simp
    have hletter' : (letter = 'e' || letter = 'E') = true := by simpa using hletter
    rw [htext, exponent?, if_pos hletter', hsign.sign_append hes] at h
    simp only at h
    split at h
    · rename_i hdigits
      exact absurd rfl (hes.taken hdigits).1
    · rename_i taken left hne hdigits
      cases h
      -- what is left of both texts behind the sign is the same
      have hle := (hes.taken hdigits).2
      have hwhole := congrArg List.length hcs
      have hbehind := congrArg List.length (exists_of_digits hdigits).2
      simp only [List.length_append, List.length_cons] at hwhole hbehind ⊢
      omega

/-- What goes on with the parts so far does not start the next part. -/
theorem separate_parts : Separate minuses wholes ∧ Separate (minuses * wholes) fractions ∧
    Separate (minuses * wholes * fractions) exponents := by
  obtain ⟨hbefore, -, hexponent⟩ := predictive_numberExpr
  rw [← language_minus, ← language_whole, ← language_fraction, ← language_exponent]
  exact ⟨hbefore.1.1.separate hbefore.1.2.2, hbefore.1.separate hbefore.2.2,
    hbefore.separate hexponent⟩

/-- What stands behind a minus, or behind none where none comes next. -/
def Unsigned (cs : List Char) (negative : Bool) (unsigned : List Char) : Prop :=
  negative = true ∧ cs = '-' :: unsigned ∨ negative = false ∧ cs = unsigned ∧ cs.head? ≠ some '-'

theorem exists_unsigned (cs : List Char) : ∃ negative unsigned, Unsigned cs negative unsigned := by
  by_cases hhead : cs.head? = some '-'
  · obtain ⟨unsigned, rfl⟩ := List.head?_eq_some_iff.mp hhead
    exact ⟨true, unsigned, .inl ⟨rfl, rfl⟩⟩
  · exact ⟨false, cs, .inr ⟨rfl, rfl, hhead⟩⟩

theorem Unsigned.eq_append {negative : Bool} {unsigned : List Char}
    (h : Unsigned cs negative unsigned) : cs = minusText negative ++ unsigned := by
  rcases h with ⟨rfl, rfl⟩ | ⟨rfl, rfl, -⟩ <;> rfl

theorem Unsigned.isLongest {negative : Bool} {unsigned : List Char}
    (h : Unsigned cs negative unsigned) : IsLongest minuses cs (minusText negative) := by
  refine ⟨⟨negative, rfl⟩, ⟨unsigned, h.eq_append.symm⟩, ?_⟩
  rintro _ ⟨other, rfl⟩ ⟨tail, htail⟩
  rcases h with ⟨rfl, -⟩ | ⟨rfl, -, hhead⟩
  · cases other <;> decide
  · cases other with
    | false => exact Nat.le_refl 0
    | true =>
      rw [← htail] at hhead
      exact absurd rfl hhead

/--
What the reader takes for a number is the longest number that comes next. It takes nothing only if
no number comes next.
-/
theorem numeral?_cases (cs : List Char) :
    (numeral? cs = none ∧ ∀ u ∈ numbers, ¬ u <+: cs) ∨
      ∃ n u rest, numeral? cs = some (n, rest) ∧ cs = u ++ rest ∧ NumberText n u ∧
        IsLongest numbers cs u := by
  obtain ⟨hsep, hsep', hsep''⟩ := separate_parts
  rw [numbers_eq]
  cases h : numeral? cs with
  | none =>
    obtain ⟨negative, unsigned, hsign⟩ := exists_unsigned cs
    have hwhole : whole? unsigned = none := by
      rw [Option.eq_none_iff_forall_ne_some]
      rintro ⟨ds, left⟩ hds
      -- with integer digits there would be a number, whatever comes behind them
      have hsome : ∃ n rest, numeral? cs = some (n, rest) :=
        ⟨⟨negative, ds, _, _⟩, _, numeral?_eq_some.mpr ⟨unsigned, left, _, hsign, hds, rfl, rfl⟩⟩
      obtain ⟨n, rest, hsome⟩ := hsome
      exact Option.some_ne_none _ (hsome.symm.trans h)
    refine .inl ⟨rfl, not_prefix_mul (not_prefix_mul ?_)⟩
    exact hsign.isLongest.not_mul hsign.eq_append hsep (not_whole_of_whole? hwhole)
  | some found =>
    obtain ⟨n, rest⟩ := found
    obtain ⟨unsigned, left, tail, hsign, hwhole, hfraction, hexponent⟩ := numeral?_eq_some.mp h
    have hsign : Unsigned cs n.negative unsigned := hsign
    obtain ⟨hds, rfl⟩ := exists_of_whole? hwhole
    obtain ⟨f, hf, rfl, hlongest⟩ := fraction?_isLongest hfraction
    obtain ⟨e, he, rfl, hlongest'⟩ := exponent?_isLongest hexponent
    -- each part is the longest where it stands, and so are the parts up to it
    have hcs := hsign.eq_append
    have hunsigned := hsign.isLongest.mul hcs hsep (whole?_isLongest hwhole)
    have hbefore := hunsigned.mul (by rw [hcs, List.append_assoc]) hsep' hlongest
    have hnumber := hbefore.mul (by simp only [hcs, List.append_assoc]) hsep'' hlongest'
    simp only [List.append_assoc] at hnumber
    refine .inr ⟨n, _, rest, rfl, ?_, .mk hds hf he, hnumber⟩
    rw [hcs]
    simp only [List.append_assoc]

/-! ## The rule at a cursor -/

/-- The rule of a number takes the longest number that comes next, if one does. -/
theorem match?_numberExpr (c : Cursor) :
    (c.match? (numberExpr.pattern {}) = none ∧ ∀ u ∈ numbers, ¬ u <+: c.after) ∨
      ∃ u d, c.match? (numberExpr.pattern {}) = some (⟨u, [], []⟩, d) ∧
        IsLongest numbers c.after u ∧ Cursor.Advances u c d := by
  have hcases := predictive_numberExpr.match?_cases proper_numberExpr c
  rwa [language_numberExpr] at hcases

/-- The reader of numbers and the rule of a number leave the same characters. -/
theorem left_numeral?_eq (c : Cursor) : (numeral? c.after).map (·.2) =
    (c.match? (numberExpr.pattern {})).map (·.2.after) := by
  rcases numeral?_cases c.after with ⟨hread, hnone⟩ | ⟨n, u, rest, hread, hafter, -, hlongest⟩ <;>
    rcases match?_numberExpr c with ⟨hmatch, hnone'⟩ | ⟨v, d, hmatch, hlongest', hadvances⟩ <;>
    rw [hread, hmatch]
  · rfl
  · exact absurd hlongest'.starts (hnone v hlongest'.mem)
  · exact absurd hlongest.starts (hnone' u hlongest.mem)
  · -- both are the longest, and there is only one
    obtain rfl := hlongest.eq hlongest'
    exact congrArg some (List.append_cancel_left (hafter.symm.trans hadvances.after))

/--
**A number is taken as far as it goes.** The grammar of JSON is compiled, and a cursor may be asked
for the pattern of its rule for numbers at any position of any text. It takes something exactly
where a number comes next, and then it takes the longest number that does, and stands behind it. The
reader of JSON takes a number in the same places, and leaves the same characters.
-/
theorem number_longest [Interpreter] : ∃ (patterns : List (Name × Pattern)) (pattern : Pattern),
    (do (← Bundled.rules .rfc8259).patterns {}) = .ok patterns ∧
    patterns.lookup "number".toList = some pattern ∧
    ∀ identity (text : List Char) (first : Nat), first ≤ text.length →
      ∃ c answer, Cursor.ofData (.text text) (.int first) = .ok c ∧
        c.ask? .pattern (.pattern ⟨identity, pattern⟩) = .ok answer ∧
        (answer.isSome ↔ ∃ u ∈ numbers, u <+: text.drop first) ∧
        (∀ taken d, answer = some (taken, d) → ∃ u, taken = .groups ⟨u, [], []⟩ ∧
          IsLongest numbers (text.drop first) u ∧
          d.text = text ∧ d.position = first + u.length) ∧
        (numeral? (text.drop first)).map (·.2) = answer.map (·.2.after) := by
  refine ⟨_, numberExpr.pattern {}, patterns_rfc8259, rfl, ?_⟩
  intro identity text first hfirst
  obtain ⟨c, hc, htext, hposition⟩ := Cursor.exists_ofData hfirst
  -- a cursor at the position has the rest of the text in front of it
  have hafter : text.drop first = c.after := by
    rw [← htext, ← hposition, Cursor.text, Cursor.position]
    exact List.drop_left' List.length_reverse
  refine ⟨c, _, hc, rfl, ?_⟩
  rw [hafter, left_numeral?_eq, Option.map_map]
  rcases match?_numberExpr c with ⟨hmatch, hnone⟩ | ⟨u, d, hmatch, hlongest, hadvances⟩
  · rw [hmatch]
    refine ⟨⟨fun h => absurd h Bool.false_ne_true, ?_⟩, ?_, rfl⟩
    · rintro ⟨u, hu, hstarts⟩
      exact absurd hstarts (hnone u hu)
    · rintro taken d ⟨⟩
  · rw [hmatch]
    refine ⟨⟨fun _ => ⟨u, hlongest.mem, hlongest.starts⟩, fun _ => rfl⟩, ?_, rfl⟩
    rintro taken d' heq
    obtain ⟨rfl, rfl⟩ := Prod.mk.inj (Option.some.inj heq)
    have hend : d.position = first + u.length := by rw [hadvances.position_eq, hposition]
    exact ⟨u, rfl, hlongest, hadvances.text_eq.trans htext, hend⟩

/-- A letter and a sign without digits are no exponent, so the number ends before them. -/
theorem number_longest_dangling : 1 ≤ "x-0.50e+z".toList.length ∧
    ∃ (patterns : List (Name × Pattern)) (pattern : Pattern),
      (do (← Bundled.rules .rfc8259).patterns {}) = .ok patterns ∧
      patterns.lookup "number".toList = some pattern ∧
      ∃ c d, Cursor.ofData (.text "x-0.50e+z".toList) (.int 1) = .ok c ∧
        c.ask? .pattern (.pattern ⟨.unique 0, pattern⟩) =
          .ok (some (.groups ⟨"-0.50".toList, [], []⟩, d)) ∧
        d.position = 6 := by
  have hfirst : 1 ≤ "x-0.50e+z".toList.length := by decide
  obtain ⟨patterns, pattern, hpatterns, hpattern, h⟩ := number_longest
  obtain ⟨c, answer, hc, hask, -, htaken, hleft⟩ := h (.unique 0) "x-0.50e+z".toList 1 hfirst
  have hread : (numeral? ("x-0.50e+z".toList.drop 1)).map (·.2) = some "e+z".toList := by decide
  rw [hread] at hleft
  obtain ⟨⟨taken, d⟩, rfl, hd⟩ := Option.map_eq_some_iff.mp hleft.symm
  obtain ⟨u, rfl, hlongest, htext, hposition⟩ := htaken taken d rfl
  have hlength : d.position + d.after.length = 9 := by
    have hlength := congrArg List.length htext
    rwa [Cursor.text, List.length_append, List.length_reverse] at hlength
  -- the three characters from `e` on are left
  have hsix : d.position = 6 := by
    have hd : d.after.length = 3 := congrArg List.length hd
    omega
  have hu : u = "-0.50".toList := by
    have htake := List.prefix_iff_eq_take.mp hlongest.starts
    have hfive : u.length = 5 := by omega
    rw [htake, hfive]
    rfl
  rw [hu] at hask
  exact ⟨hfirst, patterns, pattern, hpatterns, hpattern, c, d, hc, hask, hsix⟩

end Abnf.Json
