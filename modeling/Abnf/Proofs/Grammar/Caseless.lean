import Abnf.Proofs.Grammar.Limits
import Abnf.Proofs.Text.LowerCase

/-!
# Reading a grammar in lower case

Every scanner and every reader does the same on a text and on the text in lower case: it takes as
many characters, leaves as many, and fails in the same way at the same place.
-/

namespace Abnf.Grammar

open Text Token

variable {cs rest u : List Char} {c : Char} {p : Char → Bool}

/-! ## Tokens -/

/-- The classes of the scanners take a letter in both cases or in neither. -/
theorem caseless_isLetter : Caseless isLetter := caseless (by decide)

theorem caseless_isNameChar : Caseless isNameChar := caseless (by decide)

theorem caseless_isBlank : Caseless isBlank := caseless (by decide)

theorem caseless_isCommentChar : Caseless isCommentChar := caseless (by decide)

theorem caseless_isQuotedChar : Caseless isQuotedChar := caseless (by decide)

theorem caseless_isProseChar : Caseless isProseChar := caseless (by decide)

theorem caseless_isDigit (base : Base) : Caseless base.isDigit := by
  cases base <;> exact caseless (by decide)

/-- A run of a class without case is as long in lower case. -/
theorem run_lowerCase (hp : Caseless p) (cs : List Char) :
    run p (lowerCase cs) = (lowerCase (run p cs).1, lowerCase (run p cs).2) := by
  rw [run, takeWhile_lowerCase hp, dropWhile_lowerCase hp]
  rfl

theorem run?_lowerCase (hp : Caseless p) (cs : List Char) :
    run? p (lowerCase cs) =
      (run? p cs).map fun (text, rest) => (lowerCase text, lowerCase rest) := by
  unfold run?
  rw [run_lowerCase hp]
  obtain ⟨u, rest⟩ := run p cs
  cases u <;> rfl

/-- A name is kept in lower case anyhow, so it is the same name. -/
theorem name?_lowerCase (cs : List Char) :
    name? (lowerCase cs) = (name? cs).map fun (name, rest) => (name, lowerCase rest) := by
  cases cs with
  | nil => rfl
  | cons c cs =>
    simp only [lowerCase_cons, name?, caseless_isLetter c, run_lowerCase caseless_isNameChar]
    split
    · have hmore := lowerCase_lowerCase (run isNameChar cs).1
      simp only [Option.map_some, List.map_cons, asciiLower_asciiLower]
      rw [← lowerCase, hmore]
      rfl
    · rfl

theorem dropComment_lowerCase (cs : List Char) :
    dropComment (lowerCase cs) = lowerCase (dropComment cs) := by
  conv => rhs; unfold dropComment
  split
  · exact dropWhile_lowerCase caseless_isCommentChar _
  · -- what begins with no semicolon does not begin with one in lower case
    rename_i hne
    exact dropComment.eq_2 _ (lowerCase_ne_cons (by decide) hne)

theorem lineEnd?_lowerCase (cs : List Char) :
    lineEnd? (lowerCase cs) = (lineEnd? cs).map lowerCase := by
  conv => rhs; unfold lineEnd?
  split
  · rfl
  · rfl
  · rename_i hlf hcrlf
    -- neither of the two line ends has a letter in it, so neither comes up in lower case
    refine lineEnd?.eq_3 _ (lowerCase_ne_cons (by decide) hlf) fun u hu => ?_
    obtain ⟨v, rfl, hv⟩ := exists_of_lowerCase_eq_cons (by decide) hu
    exact lowerCase_ne_cons (by decide) (fun w hw => hcrlf w (congrArg _ hw)) u hv

theorem blank?_lowerCase (cs : List Char) : blank? (lowerCase cs) = (blank? cs).map lowerCase := by
  cases cs with
  | nil => rfl
  | cons c cs =>
    -- what is behind the comment of the line decides whether the next line goes on
    have hend := lineEnd?_lowerCase (dropComment (c :: cs))
    rw [← dropComment_lowerCase, lowerCase_cons] at hend
    simp only [lowerCase_cons, blank?, caseless_isBlank c, hend]
    split
    · rfl
    · cases lineEnd? (dropComment (c :: cs)) with
      | none => rfl
      | some left =>
        cases left with
        | nil => rfl
        | cons d left =>
          simp only [Option.map_some, lowerCase_cons, caseless_isBlank d]
          split <;> rfl

/-- What is passed over between tokens is the same in either case. -/
theorem skip_lowerCase (cs : List Char) : skip (lowerCase cs) = lowerCase (skip cs) := by
  unfold skip
  rw [length_lowerCase]
  fun_induction skipBlanks cs.length cs with
  | case1 => rfl
  | case2 n cs rest h ih => rw [skipBlanks, blank?_lowerCase, h]; exact ih
  | case3 n cs h => rw [skipBlanks, blank?_lowerCase, h]; rfl

theorem skip?_lowerCase (cs : List Char) : skip? (lowerCase cs) = (skip? cs).map lowerCase := by
  unfold skip?
  rw [blank?_lowerCase, Option.map_map, Option.map_map]
  exact congrArg (Option.map · _) (funext skip_lowerCase)

theorem definedAs?_lowerCase (cs : List Char) :
    definedAs? (lowerCase cs) = (definedAs? cs).map fun (adds, rest) => (adds, lowerCase rest) := by
  conv => rhs; unfold definedAs?
  split
  · -- for `=/`, for `=`, and for neither
    rfl
  · rename_i cs hne
    exact definedAs?.eq_2 _ (lowerCase_ne_cons (by decide) hne)
  · rename_i hadds hdefines
    have hne := lowerCase_ne_cons (by decide) hdefines
    exact definedAs?.eq_3 _ (fun u => hne ('/' :: u)) hne

/-- A text up to a closing mark, which is no letter. -/
theorem upTo?_lowerCase (hp : Caseless p) (hc : ¬ isLetter c) (cs : List Char) :
    upTo? p c (lowerCase cs) =
      (upTo? p c cs).map fun (text, rest) => (lowerCase text, lowerCase rest) := by
  unfold upTo?
  rw [run_lowerCase hp]
  obtain ⟨u, rest⟩ := run p cs
  cases rest with
  | nil => rfl
  | cons d rest =>
    simp only [lowerCase_cons, asciiLower_eq_iff hc]
    split <;> rfl

/-- The digits of decimal are no letters. -/
theorem run_isAsciiDigit_lowerCase (cs : List Char) : run isAsciiDigit (lowerCase cs) =
    ((run isAsciiDigit cs).1, lowerCase (run isAsciiDigit cs).2) := by
  rw [run_lowerCase (p := isAsciiDigit) (caseless_isDigit .decimal)]
  obtain ⟨u, rest, hrun, -, hu⟩ := exists_run isAsciiDigit cs
  rw [hrun]
  refine congrArg (·, lowerCase rest) (lowerCase_eq_self fun c hc hletter => ?_)
  exact not_digit_of_startsElement (startsElement_of_isLetter hletter) (hu c hc)

theorem bounds?_lowerCase (cs : List Char) :
    bounds? (lowerCase cs) = (bounds? cs).map fun (bounds, rest) => (bounds, lowerCase rest) := by
  unfold bounds?
  rw [run_isAsciiDigit_lowerCase]
  obtain ⟨u, rest⟩ := run isAsciiDigit cs
  cases rest with
  | nil => cases u <;> rfl
  | cons d rest =>
    -- the star has no case, and the digits are no letters
    have hd : asciiLower d = '*' ↔ d = '*' := asciiLower_eq_iff (by decide)
    by_cases hstar : d = '*'
    · subst hstar
      have hmost := run_isAsciiDigit_lowerCase rest
      simp only [lowerCase_cons, hd.mpr, hmost]
      rfl
    · cases u <;> simp [hd, hstar]

/-! ## Numbers -/

theorem ofLetter?_asciiLower (c : Char) : Base.ofLetter? (asciiLower c) = Base.ofLetter? c :=
  apply_asciiLower (by decide) c

/-- Numbers with their digits in lower case. -/
def Token.Numbers.lowerCase : Numbers → Numbers
  | .range base first last => .range base (Text.lowerCase first) (Text.lowerCase last)
  | .row base first more => .row base (Text.lowerCase first) (more.map Text.lowerCase)

/-- Further numerals behind a point, which is no letter. -/
theorem row_lowerCase (base : Base) (n : Nat) (cs : List Char) : row base n (lowerCase cs) =
    ((row base n cs).1.map lowerCase, lowerCase (row base n cs).2) := by
  fun_induction row base n cs with
  | case1 n cs digits rest hrun more left hrow ih =>
    change row base (n + 1) ('.' :: lowerCase cs) = _
    rw [row, run?_lowerCase (caseless_isDigit base), hrun]
    rw [hrow] at ih
    simp [ih]
  | case2 n cs hrun =>
    change row base (n + 1) ('.' :: lowerCase cs) = _
    rw [row, run?_lowerCase (caseless_isDigit base), hrun]
    rfl
  -- no point comes next, and none does so in lower case
  | case3 n cs hne =>
    exact row.eq_2 _ _ _ fun m u hm => lowerCase_ne_cons (by decide) (fun v => hne m v hm) u

/-- A range or a row, by what comes behind the first numeral. -/
theorem numbersFrom_lowerCase (base : Base) (first cs : List Char) :
    numbersFrom base (lowerCase first) (lowerCase cs) =
      ((numbersFrom base first cs).1.lowerCase, lowerCase (numbersFrom base first cs).2) := by
  conv => rhs; unfold numbersFrom
  split
  · rename_i rest
    change numbersFrom base _ ('-' :: lowerCase rest) = _
    rw [numbersFrom, run?_lowerCase (caseless_isDigit base)]
    cases run? base.isDigit rest with
    | none => rfl
    | some taken => rfl
  · rename_i hne
    rw [numbersFrom.eq_2 _ _ _ (lowerCase_ne_cons (by decide) hne), length_lowerCase, row_lowerCase]
    rfl

/-- Numbers are read in lower case as the same numbers with their digits in lower case. -/
theorem numbers?_lowerCase (cs : List Char) :
    numbers? (lowerCase cs) =
      (numbers? cs).map fun (numbers, rest) => (numbers.lowerCase, lowerCase rest) := by
  cases cs with
  | nil => rfl
  | cons c cs =>
    simp only [lowerCase_cons, numbers?, ofLetter?_asciiLower, run?_lowerCase (caseless_isDigit _)]
    split
    · rfl
    · simp only [Option.map_map, Function.comp_def, numbersFrom_lowerCase]

/-- A digit has one value in either case. -/
theorem digitValue_asciiLower (h : isHexDigit c) : digitValue (asciiLower c) = digitValue c :=
  asciiLower_rec (motive := fun c d => isHexDigit c → digitValue d = digitValue c)
    (fun _ _ => rfl) (by decide) c h

/-- The value of a numeral is the same in either case. -/
theorem value_lowerCase {base : Base} (h : ∀ c ∈ u, base.isDigit c) :
    base.value (lowerCase u) = base.value u := by
  have hvalue (radix : Nat) : numeralValue radix (lowerCase u) = numeralValue radix u := by
    rw [numeralValue, numeralValue, lowerCase, List.foldl_map]
    refine List.foldl_ext _ _ 0 fun n c hc => ?_
    rw [digitValue_asciiLower (isHexDigit_of_isDigit (h c hc))]
  cases base <;> simp only [Base.value, decimalValue, hvalue, length_lowerCase]

/-! ## What tokens stand for -/

/-- A fault keeps how many characters are left, and not which. -/
theorem refuse_lowerCase {α : Type} (cause : Cause) (left : List Char) :
    refuse (α := α) cause (lowerCase left) = refuse cause left := by
  rw [refuse, length_lowerCase, refuse]

/-- Bounds have no letters: only what is left behind them changes. -/
theorem resolveBounds_lowerCase (bounds : Bounds) (left : List Char) :
    resolveBounds bounds (lowerCase left) = resolveBounds bounds left := by
  unfold resolveBounds decimalAt
  simp only [refuse_lowerCase]

theorem readRepeat_lowerCase (cs : List Char) : readRepeat (lowerCase cs) =
    (readRepeat cs).map fun (times, rest) => (times, lowerCase rest) := by
  unfold readRepeat
  rw [bounds?_lowerCase]
  cases bounds? cs with
  | none => rfl
  | some taken =>
    obtain ⟨bounds, rest⟩ := taken
    simp only [Option.map_some, resolveBounds_lowerCase]
    cases resolveBounds bounds rest <;> rfl

theorem valueAt_lowerCase {base : Base} {left : List Char} (h : ∀ c ∈ u, base.isDigit c) :
    valueAt base (lowerCase u) (lowerCase left) = valueAt base u left := by
  unfold valueAt
  simp only [value_lowerCase h, refuse_lowerCase]

theorem checkCode_lowerCase (code : Nat) (left : List Char) :
    checkCode code (lowerCase left) = checkCode code left := by
  unfold checkCode
  rw [refuse_lowerCase]

theorem codesAt_lowerCase {base : Base} {numerals : List (List Char)} {left : List Char}
    (h : ∀ digits ∈ numerals, ∀ c ∈ digits, base.isDigit c) :
    codesAt base (lowerCase left) (numerals.map lowerCase) = codesAt base left numerals := by
  induction numerals with
  | nil => rfl
  | cons digits more ih =>
    rw [List.forall_mem_cons] at h
    simp only [List.map_cons, codesAt, valueAt_lowerCase h.1, checkCode_lowerCase, ih h.2]

/-- Numbers ask for the same characters in either case, or are refused for the same reason. -/
theorem resolveNumbers_lowerCase {numbers : Numbers} {left : List Char}
    (h : NumbersText numbers u) :
    resolveNumbers numbers.lowerCase (lowerCase left) = resolveNumbers numbers left := by
  cases h with
  | row _ hfirst hmore =>
    have hall := List.forall_mem_cons.mpr ⟨hfirst.2, fun digits hd => (hmore digits hd).2⟩
    exact congrArg (· >>= _) (codesAt_lowerCase hall)
  | range _ hfirst hlast =>
    simp only [resolveNumbers, Numbers.lowerCase, valueAt_lowerCase hfirst.2,
      valueAt_lowerCase hlast.2, checkCode_lowerCase, refuse_lowerCase]

/-! ## What is read -/

/-- An expression with its strings in lower case. -/
def Expr.lowerCase : Expr → Expr
  | literal text => literal (Text.lowerCase text)
  | codes cs => codes cs
  | range first last => range first last
  | core rule => core rule
  | foreign source => foreign source
  | seq a b => seq a.lowerCase b.lowerCase
  | alt a b => alt a.lowerCase b.lowerCase
  | grouped body => grouped body.lowerCase
  | optional body => optional body.lowerCase
  | repeated times body => repeated times body.lowerCase

/-- A letter of a string is written as a set of both its cases, whichever it is given in. -/
theorem charSource_asciiLower (c : Char) : charSource (asciiLower c) = charSource c :=
  apply_asciiLower (by decide) c

/-- Strings are written in the same way in either case. -/
theorem Expr.source_lowerCase (expr : Expr) : expr.lowerCase.source = expr.source := by
  induction expr with
  | literal text =>
    rw [lowerCase, source, source, literalSource, literalSource, Text.lowerCase, List.flatMap_map]
    simp only [charSource_asciiLower]
  | codes | range | core | foreign => rfl
  | seq a b iha ihb | alt a b iha ihb => simp only [lowerCase, source, iha, ihb]
  | grouped body ih | optional body ih | repeated times body ih => simp only [lowerCase, source, ih]

/-- Rules with their strings in lower case. -/
def Rules.lowerCase (rules : Rules) : Rules := rules.map fun (name, expr) => (name, expr.lowerCase)

/-- A scope with its strings in lower case. -/
def Scope.lowerCase (scope : Scope) : Scope := ⟨scope.given.lowerCase, scope.defined.lowerCase⟩

theorem Rules.find?_lowerCase (rules : Rules) (name : Name) :
    rules.lowerCase.find? name = (rules.find? name).map Expr.lowerCase := by
  induction rules with
  | nil => rfl
  | cons rule rules ih =>
    change Rules.find? ((rule.1, rule.2.lowerCase) :: Rules.lowerCase rules) name = _
    rw [Rules.find?_cons, Rules.find?_cons, ih]
    split <;> rfl

theorem Rules.define_lowerCase (rules : Rules) (name : Name) (expr : Expr) :
    rules.lowerCase.define name expr.lowerCase = (rules.define name expr).lowerCase := by
  induction rules with
  | nil => rfl
  | cons rule rules ih =>
    change Rules.define ((rule.1, rule.2.lowerCase) :: Rules.lowerCase rules) name _ = _
    simp only [Rules.define, ih]
    split <;> rfl

variable (scope : Scope)

/-- A name stands for the same in lower case, core rules included. -/
theorem Scope.find?_lowerCase (name : Name) :
    scope.lowerCase.find? name = (scope.find? name).map Expr.lowerCase := by
  unfold Scope.find?
  split
  · rfl
  · simp only [Scope.lowerCase, Rules.find?_lowerCase, Option.map_or]

theorem Scope.isReserved_lowerCase (name : Name) :
    scope.lowerCase.isReserved name = scope.isReserved name := by
  unfold Scope.isReserved
  rw [Scope.lowerCase, Rules.find?_lowerCase, Option.isSome_map]

theorem Scope.define_lowerCase (name : Name) (expr : Expr) :
    scope.lowerCase.define name expr.lowerCase = (scope.define name expr).lowerCase := by
  unfold Scope.define
  rw [Scope.lowerCase, Rules.define_lowerCase]
  rfl

theorem resolveName_lowerCase (name : Name) (left : List Char) :
    resolveName scope.lowerCase name (lowerCase left) =
      (resolveName scope name left).map Expr.lowerCase := by
  unfold resolveName
  rw [Scope.find?_lowerCase, refuse_lowerCase]
  cases scope.find? name <;> rfl

/-! ## Readers -/

/-- What has been read and what is left, both in lower case. -/
def lowerBoth (read : Expr × List Char) : Expr × List Char := (read.1.lowerCase, lowerCase read.2)

section

variable {scope} {body body' : List Char → Except Fault (Expr × List Char)}
  (hbody : ∀ cs, body' (lowerCase cs) = (body cs).map lowerBoth)
include hbody

/-- A group is read in lower case if what is inside it is. -/
theorem readGroup_lowerCase {closing : Char} (hclosing : ¬ isLetter closing) (expected : Expected)
    (cs : List Char) : readGroup body' closing expected (lowerCase cs) =
      (readGroup body closing expected cs).map lowerBoth := by
  unfold readGroup
  rw [skip_lowerCase, hbody]
  cases body (skip cs) with
  | error fault => rfl
  | ok read =>
    simp only [bind, Except.bind, Except.map, lowerBoth, skip_lowerCase]
    cases skip read.2 with
    | nil => rfl
    | cons c after =>
      simp only [lowerCase_cons, asciiLower_eq_iff hclosing]
      split
      · rfl
      · exact refuse_lowerCase _ (c :: after)

/-- An element is read in lower case if what is inside groups is. -/
theorem readElement_lowerCase (cs : List Char) : readElement scope.lowerCase body' (lowerCase cs) =
    (readElement scope body cs).map (Option.map lowerBoth) := by
  conv => rhs; unfold readElement
  split
  case h_1 rest =>
    change (readGroup body' ')' _ (lowerCase rest) >>= _) = _
    rw [readGroup_lowerCase hbody (by decide)]
    cases readGroup body ')' .closingParenthesis rest <;> rfl
  case h_2 rest =>
    change (readGroup body' ']' _ (lowerCase rest) >>= _) = _
    rw [readGroup_lowerCase hbody (by decide)]
    cases readGroup body ']' .closingBracket rest <;> rfl
  case h_3 rest =>
    change Except.ok ((upTo? isQuotedChar '"' (lowerCase rest)).map _) = _
    rw [upTo?_lowerCase caseless_isQuotedChar (by decide)]
    cases upTo? isQuotedChar '"' rest <;> rfl
  case h_4 rest =>
    change Except.ok ((upTo? isProseChar '>' (lowerCase rest)).map _) = _
    rw [upTo?_lowerCase caseless_isProseChar (by decide)]
    cases upTo? isProseChar '>' rest <;> rfl
  case h_5 rest =>
    change readElement scope.lowerCase body' ('%' :: lowerCase rest) = _
    rw [readElement, numbers?_lowerCase]
    cases h : numbers? rest with
    | none => rfl
    | some taken =>
      obtain ⟨numbers, left⟩ := taken
      obtain ⟨u, hu, -⟩ := exists_of_numbers? h
      simp only [Option.map_some, resolveNumbers_lowerCase hu]
      cases hnumbers : resolveNumbers numbers left with
      | error fault => rfl
      | ok expr =>
        -- code points have no case, unlike the digits they are written with
        have hexpr : expr.lowerCase = expr := by
          rw [(resolveNumbers_eq_ok.mp hnumbers).2]
          cases numbers <;> rfl
        simp only [bind, Except.bind, Except.map, pure, Except.pure, Option.map_some, lowerBoth,
          hexpr]
  case h_6 h1 h2 h3 h4 h5 =>
    -- a text that starts with none of the five characters does not do so in lower case either
    rw [readElement.eq_6]
    · rw [name?_lowerCase]
      cases name? cs with
      | none => rfl
      | some taken =>
        obtain ⟨name, left⟩ := taken
        simp only [Option.map_some, resolveName_lowerCase]
        cases resolveName scope name left <;> rfl
    all_goals refine lowerCase_ne_cons (by decide) ?_
    · exact h1
    · exact h2
    · exact h3
    · exact h4
    · exact h5

end

theorem append_lowerCase (before : Option Expr) (expr : Expr) :
    append (before.map Expr.lowerCase) expr.lowerCase = (append before expr).lowerCase := by
  cases before <;> rfl

theorem applyRepeat_lowerCase (times : Option Repeat) (expr : Expr) :
    applyRepeat times expr.lowerCase = (applyRepeat times expr).lowerCase := by
  cases times <;> rfl

/-- A row of repetitions is read in lower case if elements are. -/
theorem readConcatenation_lowerCase
    {element element' : List Char → Except Fault (Option (Expr × List Char))}
    (helement : ∀ cs, element' (lowerCase cs) = (element cs).map (Option.map lowerBoth)) :
    ∀ (n : Nat) (before : Option Expr) (cs : List Char),
      readConcatenation element' n (before.map Expr.lowerCase) (lowerCase cs) =
        (readConcatenation element n before cs).map lowerBoth
  | 0, before, cs => by
      rw [readConcatenation, readConcatenation, refuse_lowerCase]
      rfl
  | n + 1, before, cs => by
      rw [readConcatenation, readConcatenation, readRepeat_lowerCase]
      cases readRepeat cs with
      | error fault => rfl
      | ok taken =>
        obtain ⟨times, rest⟩ := taken
        simp only [bind, Except.bind, Except.map, helement]
        cases element rest with
        | error fault => rfl
        | ok read =>
          cases read with
          -- no element: this is the end, or a fault, and what has been read before decides
          | none =>
            simp only [Option.map_none, refuse_lowerCase]
            cases times <;> cases before <;> rfl
          | some read =>
            obtain ⟨expr, left⟩ := read
            have hexpr : append (before.map Expr.lowerCase) (applyRepeat times expr.lowerCase) =
                (append before (applyRepeat times expr)).lowerCase := by
              rw [applyRepeat_lowerCase, append_lowerCase]
            simp only [Option.map_some, lowerBoth, skip?_lowerCase, hexpr]
            cases skip? left with
            | none => rfl
            | some after => exact readConcatenation_lowerCase helement n (some _) after

/-- Alternatives behind slashes are read in lower case if concatenations are. -/
theorem readAlternatives_lowerCase
    {concatenation concatenation' : List Char → Except Fault (Expr × List Char)}
    (hconcatenation : ∀ cs, concatenation' (lowerCase cs) = (concatenation cs).map lowerBoth)
    (n : Nat) (cs : List Char) : readAlternatives concatenation' n (lowerCase cs) =
      (readAlternatives concatenation n cs).map fun (more, rest) =>
        (more.map Expr.lowerCase, lowerCase rest) := by
  fun_induction readAlternatives concatenation n cs with
  | case1 n cs ih =>
    change readAlternatives concatenation' (n + 1) ('/' :: lowerCase cs) = _
    rw [readAlternatives, skip_lowerCase, hconcatenation]
    cases concatenation (skip cs) with
    | error fault => rfl
    | ok read =>
      simp only [bind, Except.bind, Except.map, lowerBoth, skip_lowerCase, ih read.2]
      cases readAlternatives concatenation n (skip read.2) <;> rfl
  | case2 n cs hne =>
    -- a slash is no letter, so there is none in lower case either
    have hbar (m : Nat) (u : List Char) (hm : n = m.succ) : lowerCase cs ≠ '/' :: u :=
      lowerCase_ne_cons (by decide) (fun v => hne m v hm) u
    rw [readAlternatives.eq_2 _ _ _ hbar]
    rfl

theorem Expr.lowerCase_alternatives (first second : Expr) (more : List Expr) :
    (anyOf.alternatives first second more).lowerCase =
      anyOf.alternatives first.lowerCase second.lowerCase (more.map lowerCase) := by
  induction more generalizing first second with
  | nil => rfl
  | cons third more ih =>
    rw [anyOf.alternatives, lowerCase, ih]
    rfl

theorem Expr.lowerCase_anyOf (first : Expr) (more : List Expr) :
    (anyOf first more).lowerCase = anyOf first.lowerCase (more.map lowerCase) := by
  cases more with
  | nil => rfl
  | cons second more =>
    rw [anyOf, lowerCase, lowerCase_alternatives]
    rfl

/-- Alternatives are read to the same expression in either case, or to the same fault. -/
theorem readAlternation_lowerCase (depth : Nat) (cs : List Char) :
    readAlternation scope.lowerCase depth (lowerCase cs) =
      (readAlternation scope depth cs).map lowerBoth := by
  induction depth generalizing cs with
  | zero =>
    rw [readAlternation, readAlternation, refuse_lowerCase]
    rfl
  | succ depth ih =>
    -- the depth carries the induction: what is inside groups is one level down
    have hconcatenation (cs : List Char) : concatenationAt scope.lowerCase depth (lowerCase cs) =
        (concatenationAt scope depth cs).map lowerBoth := by
      rw [concatenationAt, length_lowerCase]
      exact readConcatenation_lowerCase (readElement_lowerCase ih) _ none cs
    unfold readAlternation
    change concatenationAt scope.lowerCase depth (lowerCase cs) >>= _ =
      (concatenationAt scope depth cs >>= _).map lowerBoth
    rw [hconcatenation]
    cases concatenationAt scope depth cs with
    | error fault => rfl
    | ok read =>
      obtain ⟨first, rest⟩ := read
      change readAlternatives (concatenationAt scope.lowerCase depth) _
          (skip (lowerCase rest)) >>= _ =
        (readAlternatives (concatenationAt scope depth) _ (skip rest) >>= _).map lowerBoth
      rw [length_lowerCase, skip_lowerCase, readAlternatives_lowerCase hconcatenation]
      cases readAlternatives (concatenationAt scope depth) cs.length (skip rest) with
      | error fault => rfl
      | ok read =>
        simp only [bind, Except.bind, Except.map, pure, Except.pure, lowerBoth,
          Expr.lowerCase_anyOf]

/-- A definition is read in lower case, or refused for the same reason. -/
theorem readDefinition_lowerCase [Interpreter] (name : Name) (cs : List Char) :
    readDefinition scope.lowerCase name (lowerCase cs) =
      (readDefinition scope name cs).map fun (scope, rest) =>
        (scope.lowerCase, lowerCase rest) := by
  unfold readDefinition
  rw [Scope.isReserved_lowerCase, refuse_lowerCase, skip_lowerCase, definedAs?_lowerCase,
    refuse_lowerCase]
  split
  · rfl
  · cases definedAs? (skip cs) with
    | none => rfl
    | some taken =>
      obtain ⟨adds, rest⟩ := taken
      cases adds with
      | false =>
        simp only [Option.map_some, skip_lowerCase, readAlternation_lowerCase]
        cases readAlternation scope depthLimit (skip rest) with
        | error fault => rfl
        | ok read =>
          simp only [bind, Except.bind, Except.map, pure, Except.pure, lowerBoth, skip_lowerCase,
            Scope.define_lowerCase]
      | true =>
        -- what is added to is the earlier definition in lower case
        have hfind : scope.lowerCase.defined.find? name =
            (scope.defined.find? name).map Expr.lowerCase := Rules.find?_lowerCase _ _
        simp only [Option.map_some, hfind, refuse_lowerCase, skip_lowerCase]
        cases scope.defined.find? name with
        | none => rfl
        | some old =>
          simp only [Option.map_some, readAlternation_lowerCase]
          cases readAlternation scope depthLimit (skip rest) with
          | error fault => rfl
          | ok read =>
            have hdefine := scope.define_lowerCase name (.grouped (.alt old read.1))
            simp only [bind, Except.bind, Except.map, pure, Except.pure, lowerBoth, skip_lowerCase,
              ← hdefine]
            rfl

/-- A line is read in lower case, be it blank or a rule. -/
theorem readLine_lowerCase [Interpreter] (cs : List Char) :
    readLine scope.lowerCase (lowerCase cs) =
    (readLine scope cs).map fun ((scope, defined), rest) =>
      ((scope.lowerCase, defined), lowerCase rest) := by
  unfold readLine
  rw [name?_lowerCase]
  cases name? cs with
  | none => simp only [Option.map_none, skip_lowerCase, dropComment_lowerCase]; rfl
  | some taken =>
    obtain ⟨name, rest⟩ := taken
    simp only [Option.map_some, readDefinition_lowerCase]
    cases readDefinition scope name rest with
    | error fault => rfl
    | ok read =>
      simp only [bind, Except.bind, Except.map, dropComment_lowerCase]
      rfl

/-- So are lines, one after the other. -/
theorem readLines_lowerCase [Interpreter] (n : Nat) (cs : List Char) :
    readLines n scope.lowerCase (lowerCase cs) = (readLines n scope cs).map Scope.lowerCase := by
  -- the bound on the lines is the same in both runs, and so is the number of lines that are read
  induction n generalizing scope cs with
  | zero =>
    rw [readLines, readLines, refuse_lowerCase]
    rfl
  | succ n ih =>
    rw [readLines, readLines, readLine_lowerCase]
    cases readLine scope cs with
    | error fault => rfl
    | ok read =>
      obtain ⟨⟨scope, defined⟩, rest⟩ := read
      have hempty : (lowerCase rest).isEmpty = rest.isEmpty := by cases rest <;> rfl
      simp only [bind, Except.bind, Except.map, hempty, lineEnd?_lowerCase, refuse_lowerCase]
      split
      · rfl
      · cases lineEnd? rest with
        | none => cases defined <;> rfl
        | some left => exact ih scope left

/-- A grammar is read in lower case to rules in lower case, or refused for the same reason. -/
theorem read_lowerCase [Interpreter] (given : Rules) (text : List Char) :
    read given.lowerCase (lowerCase text) = (read given text).map Rules.lowerCase := by
  have hstart : ({ given := given.lowerCase } : Scope) = Scope.lowerCase { given := given } := rfl
  unfold read
  rw [length_lowerCase, hstart, readLines_lowerCase]
  cases readLines (text.length + 1) { given := given } text <;> rfl

end Abnf.Grammar
