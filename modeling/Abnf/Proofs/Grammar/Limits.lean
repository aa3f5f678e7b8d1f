import Abnf.Proofs.Grammar.Lines

/-!
# The limits of the reader

Two limits are the implementation's own: how deeply groups nest, and how many digits a decimal
numeral has. Whether a text keeps to them is a question about its tokens alone, also for a text that
is no grammar: `marks` lists its brackets and its decimal numerals, and passes over the text of
strings, prose and comments, over names, and over numbers of the other bases.

For a text that is a grammar, these are the marks of its phrases (`Ended.marks_eq`). For any text,
the reader meets a limit only where its marks do (`readLines_exceeds`): on the way to a fault all
brackets that were opened and closed are in balance.
-/

namespace Abnf.Grammar

open Token

variable {scope : Scope} {d : Definition} {ds : List Definition} {p : Phrase} {n : Nonterminal}
  {u v w nl remark cs rest left text : List Char} {depth k : Nat} {fault : Fault}

/-! ## Marks -/

/-- What the limits are about. -/
inductive Mark where
  | opening
  | closing
  | numeral (digits : List Char)
  deriving DecidableEq

/-- The decimal numerals of a repeat. -/
def Token.Bounds.decimals : Bounds → List (List Char)
  | exact count => [count]
  | range least most => [least, most]

/-- The decimal numerals of numbers. -/
def Token.Numbers.decimals : Numbers → List (List Char)
  | row base first more => if base = .decimal then first :: more else []
  | range base first last => if base = .decimal then [first, last] else []

/-- The marks of the token that a text starts with, and what is left after it. -/
def nextMarks : List Char → List Mark × List Char
  | [] => ([], [])
  | '(' :: cs | '[' :: cs => ([.opening], cs)
  | ')' :: cs | ']' :: cs => ([.closing], cs)
  | '"' :: cs => ([], ((upTo? isQuotedChar '"' cs).map (·.2)).getD cs)
  | '<' :: cs => ([], ((upTo? isProseChar '>' cs).map (·.2)).getD cs)
  | ';' :: cs => ([], cs.dropWhile isCommentChar)
  | '%' :: cs =>
    match numbers? cs with
    | some (numbers, rest) => (numbers.decimals.map .numeral, rest)
    | none => ([], cs)
  | c :: cs =>
    match name? (c :: cs), bounds? (c :: cs) with
    | some (_, rest), _ => ([], rest)
    | none, some (bounds, rest) => (bounds.decimals.map .numeral, rest)
    | none, none => ([], cs)

/-- The marks of a text, of so many tokens at most. -/
def marksUpTo : Nat → List Char → List Mark
  | 0, _ => []
  | n + 1, cs => (nextMarks cs).1 ++ marksUpTo n (nextMarks cs).2

/-- The marks of a text. -/
def marks (cs : List Char) : List Mark := marksUpTo cs.length cs

/-- How many groups are open at once, where so many are open already. -/
def nestingFrom : Nat → List Mark → Nat
  | k, [] => k
  | k, .opening :: ms => nestingFrom (k + 1) ms
  | k, .closing :: ms => max k (nestingFrom (k - 1) ms)
  | k, .numeral _ :: ms => nestingFrom k ms

/-- No numeral is too long. -/
def NumeralsFit (ms : List Mark) : Prop :=
  ∀ digits, .numeral digits ∈ ms → digits.length ≤ Text.decimalLimit

/-- A text keeps to the limits. -/
def WithinLimits [Interpreter] (text : List Char) : Prop :=
  nestingFrom 0 (marks text) < depthLimit ∧ NumeralsFit (marks text)

/-! ## Passing over a token -/

/-- Whether or not there is a closing mark, no more is left than there was. -/
theorem length_upTo?_le {p : Char → Bool} {closing : Char} :
    (((upTo? p closing cs).map (·.2)).getD cs).length ≤ cs.length := by
  cases h : upTo? p closing cs with
  | none => exact Nat.le_refl _
  | some taken =>
    obtain ⟨hcs, -⟩ := exists_of_upTo? h
    rw [Option.map_some, Option.getD_some, hcs, List.length_append, List.length_cons]
    omega

/-- Every token takes a character. -/
theorem length_nextMarks_lt :
    ∀ {cs : List Char}, cs ≠ [] → (nextMarks cs).2.length < cs.length := by
  intro cs hcs
  fun_cases nextMarks cs with
  | case1 => exact absurd rfl hcs
  | case2 | case3 | case4 | case5 => simp
  | case6 cs => exact Nat.lt_succ_of_le length_upTo?_le
  | case7 cs => exact Nat.lt_succ_of_le length_upTo?_le
  | case8 cs => exact Nat.lt_succ_of_le (List.dropWhile_suffix _).length_le
  | case9 cs numbers rest h =>
    obtain ⟨u, -, rfl⟩ := exists_of_numbers? h
    exact Nat.lt_succ_of_le (List.suffix_append u rest).length_le
  | case10 => simp
  -- a name has its first letter
  | case11 c cs =>
    rename_i rest hname
    obtain ⟨u, hu, hcs, -⟩ := exists_of_name? hname
    obtain ⟨d, tail, rfl, -⟩ := hu.head
    rw [hcs, List.length_append, List.length_cons]
    simp only
    omega
  -- a repeat is a digit or a star at least
  | case12 c cs =>
    rename_i bounds rest hbounds _
    obtain ⟨u, hu, hcs⟩ := exists_of_bounds? hbounds
    obtain ⟨d, tail, rfl, -⟩ := hu.head
    rw [hcs, List.length_append, List.length_cons]
    simp only
    omega
  | case13 => simp

theorem marksUpTo_nil (n : Nat) : marksUpTo n [] = [] := by
  induction n with
  | zero => rfl
  | succ n ih => rw [marksUpTo]; exact ih

/-- Every token takes a character, so any count that covers the characters is as good as another. -/
theorem marksUpTo_eq : ∀ (n m : Nat) {cs : List Char}, cs.length ≤ n → cs.length ≤ m →
    marksUpTo n cs = marksUpTo m cs
  | 0, m, cs, hn, _ => by
      obtain rfl : cs = [] := List.eq_nil_of_length_eq_zero (Nat.le_zero.mp hn)
      exact (marksUpTo_nil m).symm
  | n + 1, 0, cs, _, hm => by
      obtain rfl : cs = [] := List.eq_nil_of_length_eq_zero (Nat.le_zero.mp hm)
      exact marksUpTo_nil (n + 1)
  | n + 1, m + 1, cs, hn, hm => by
      by_cases hcs : cs = []
      · rw [hcs, marksUpTo_nil, marksUpTo_nil]
      · have hlt := length_nextMarks_lt hcs
        rw [marksUpTo, marksUpTo, marksUpTo_eq n m (by omega) (by omega)]

/-- The marks of a text are those of its first token and those of what is left. -/
theorem marks_eq (hcs : cs ≠ []) : marks cs = (nextMarks cs).1 ++ marks (nextMarks cs).2 := by
  have hlt := length_nextMarks_lt hcs
  have hpos := List.length_pos_iff.mpr hcs
  unfold marks
  rw [marksUpTo_eq cs.length (cs.length - 1 + 1) (Nat.le_refl _) (by omega), marksUpTo,
    marksUpTo_eq (cs.length - 1) _ (by omega) (Nat.le_refl _)]

/-- The marks of a text, token by token. -/
theorem marks_cons {c : Char} {ms : List Mark} (h : nextMarks (c :: cs) = (ms, rest)) :
    marks (c :: cs) = ms ++ marks rest := by
  rw [marks_eq (List.cons_ne_nil c cs), h]

/-- Where a name or a repeat starts. -/
theorem nextMarks_word {c : Char} (h : isLetter c ∨ Text.isAsciiDigit c ∨ c = '*') :
    nextMarks (c :: cs) = match name? (c :: cs), bounds? (c :: cs) with
      | some (_, rest), _ => ([], rest)
      | none, some (bounds, rest) => (bounds.decimals.map .numeral, rest)
      | none, none => ([], cs) := by
  conv => lhs; unfold nextMarks
  split
  case h_10 =>
    rename_i heq
    cases heq
    rfl
  case h_1 heq => cases heq
  -- none of the characters with a meaning of their own starts a name or a repeat
  all_goals
    rename_i heq
    obtain ⟨rfl, -⟩ := List.cons.inj heq
    exact absurd h (by decide)

/-- A name has no marks. -/
theorem marks_name {name : Name} (h : name? cs = some (name, rest)) : marks cs = marks rest := by
  obtain ⟨u, hu, hcs, -⟩ := exists_of_name? h
  obtain ⟨c, tail, rfl, hc⟩ := hu.head
  subst hcs
  rw [List.cons_append] at h ⊢
  rw [marks_cons (nextMarks_word (.inl hc)), h]
  rfl

/-- A repeat has the marks of its numerals. -/
theorem marks_bounds {bounds : Bounds} (h : bounds? cs = some (bounds, rest)) :
    marks cs = bounds.decimals.map .numeral ++ marks rest := by
  obtain ⟨u, hu, hcs⟩ := exists_of_bounds? h
  obtain ⟨c, tail, rfl, hc⟩ := hu.head
  -- what starts with a digit or a star is no name
  have hletter : ¬ isLetter c := by
    intro hletter
    rcases hc with hdigit | rfl
    · exact not_digit_of_startsElement (startsElement_of_isLetter hletter) hdigit
    · exact absurd hletter (by decide)
  subst hcs
  rw [List.cons_append] at h ⊢
  rw [marks_cons (nextMarks_word (.inr hc)), h]
  simp [name?, hletter]

/-- Numbers have the marks of their numerals, if these are decimal. -/
theorem marks_numbers {numbers : Numbers} (h : numbers? cs = some (numbers, rest)) :
    marks ('%' :: cs) = numbers.decimals.map .numeral ++ marks rest :=
  marks_cons (by simp [nextMarks, h])

theorem marks_dropComment (cs : List Char) : marks (dropComment cs) = marks cs := by
  unfold dropComment
  split
  · rename_i cs
    exact (marks_cons (c := ';') rfl).symm
  · rfl

theorem marks_lineEnd (h : lineEnd? cs = some rest) : marks cs = marks rest := by
  obtain ⟨nl, hb, rfl⟩ := exists_of_lineEnd? h
  cases hb with
  | lf => exact marks_cons (c := '\n') rfl
  | crlf =>
    have hreturn : marks ('\r' :: '\n' :: rest) = [] ++ marks ('\n' :: rest) := marks_cons rfl
    exact hreturn.trans (marks_cons (c := '\n') rfl)

theorem marks_isBlank {c : Char} (h : isBlank c) : marks (c :: cs) = marks cs := by
  rcases eq_of_isBlank h with rfl | rfl
  · exact marks_cons (c := ' ') rfl
  · exact marks_cons (c := '\t') rfl

/-- What is passed over between tokens has no marks. -/
theorem marks_blank (h : blank? cs = some rest) : marks cs = marks rest := by
  unfold blank? at h
  split at h
  · cases h
  · split at h
    · rename_i hc
      cases h
      exact marks_isBlank hc
    · split at h
      · rename_i hend
        split at h
        · rename_i hd
          cases h
          -- a comment, a line end and the blank that the next line begins with
          rw [← marks_dropComment, marks_lineEnd hend, marks_isBlank hd]
        · cases h
      · cases h

theorem marks_skipBlanks (n : Nat) (cs : List Char) : marks (skipBlanks n cs) = marks cs := by
  fun_induction skipBlanks n cs with
  | case1 => rfl
  | case2 n cs rest h ih => rw [ih, marks_blank h]
  | case3 => rfl

theorem marks_skip (cs : List Char) : marks (skip cs) = marks cs := marks_skipBlanks _ _

/-! ## The marks of a grammar -/

/-- The marks of a phrase. -/
def Phrase.marks : Phrase → List Mark
  | reference _ | quoted _ | prose _ => []
  | codes numbers => numbers.decimals.map .numeral
  | group body | option body => .opening :: (body.marks ++ [.closing])
  | times bounds body => bounds.decimals.map .numeral ++ body.marks
  | seq a b | alt a b => a.marks ++ b.marks

theorem marks_blanks (hw : Blanks w) : marks (w ++ rest) = marks rest := by
  rw [← marks_skip, hw.skip_append, marks_skip]

/-- A text that says a phrase has the marks of the phrase. -/
theorem Derives.marks_append (h : Derives n p u) (hrest : Boundary rest) :
    marks (u ++ rest) = p.marks ++ marks rest := by
  induction h generalizing rest with
  | reference hname => exact marks_name (hname.name?_append (hrest.not_head (by decide)))
  -- the text is bracketed anew so that each token stands in front of what follows it
  | @group p u v w hv _ hw ih =>
    have hclose : marks (')' :: rest) = .closing :: marks rest := marks_cons rfl
    have hbound : Boundary (w ++ ')' :: rest) := hw.boundary (.cons (by decide))
    have htext : '(' :: (v ++ (u ++ (w ++ [')']))) ++ rest =
        '(' :: (v ++ (u ++ (w ++ ')' :: rest))) := by simp
    rw [htext, marks_cons (c := '(') rfl, marks_blanks hv, ih hbound, marks_blanks hw, hclose]
    simp [Phrase.marks]
  | @option p u v w hv _ hw ih =>
    have hclose : marks (']' :: rest) = .closing :: marks rest := marks_cons rfl
    have hbound : Boundary (w ++ ']' :: rest) := hw.boundary (.cons (by decide))
    have htext : '[' :: (v ++ (u ++ (w ++ [']']))) ++ rest =
        '[' :: (v ++ (u ++ (w ++ ']' :: rest))) := by simp
    rw [htext, marks_cons (c := '[') rfl, marks_blanks hv, ih hbound, marks_blanks hw, hclose]
    simp [Phrase.marks]
  | @quoted text htext =>
    have hquoted : nextMarks ('"' :: (text ++ '"' :: rest)) = ([], rest) := by
      simp [nextMarks, upTo?_append htext (show ¬ isQuotedChar '"' by decide)]
    rw [List.cons_append, List.append_assoc, List.singleton_append, marks_cons hquoted]
    rfl
  | @prose text htext =>
    have hprose : nextMarks ('<' :: (text ++ '>' :: rest)) = ([], rest) := by
      simp [nextMarks, upTo?_append htext (show ¬ isProseChar '>' by decide)]
    rw [List.cons_append, List.append_assoc, List.singleton_append, marks_cons hprose]
    rfl
  | codes hnumbers => exact marks_numbers (hnumbers.numbers?_append hrest)
  | once _ ih | single _ ih | only _ ih => exact ih hrest
  -- what is repeated begins with no digit and no star, so the repeat is taken as it is
  | @times p bounds u v hbounds hp ih =>
    obtain ⟨c, tail, rfl, hc⟩ := hp.head
    have htake : bounds? (v ++ (c :: tail ++ rest)) = some (bounds, c :: tail ++ rest) :=
      hbounds.bounds?_append (by simpa using not_digit_of_startsElement hc)
        (by rintro ⟨⟩; exact absurd hc (by decide))
    rw [List.append_assoc, marks_bounds htake, ih hrest, Phrase.marks, List.append_assoc]
  | @seq p q u v b w _ hb hw _ ihp ihq =>
    have htext : u ++ (b ++ (w ++ v)) ++ rest = u ++ (b ++ (w ++ (v ++ rest))) := by simp
    rw [htext, ihp hb.boundary, marks_blanks hb.blanks, marks_blanks hw, ihq hrest]
    simp [Phrase.marks]
  | @alt p q u v w x _ hw hx _ ihp ihq =>
    have htext : u ++ (w ++ '/' :: (x ++ v)) ++ rest = u ++ (w ++ '/' :: (x ++ (v ++ rest))) := by
      simp
    have hslash : marks ('/' :: (x ++ (v ++ rest))) = marks (x ++ (v ++ rest)) := marks_cons rfl
    rw [htext, ihp (hw.boundary (.cons (by decide))), marks_blanks hw, hslash, marks_blanks hx,
      ihq hrest]
    simp [Phrase.marks]

/-! ## Depth -/

/-- What is open stays counted. -/
theorem le_nestingFrom (k : Nat) (ms : List Mark) : k ≤ nestingFrom k ms := by
  induction ms generalizing k with
  | nil => exact Nat.le_refl k
  | cons m ms ih =>
    cases m with
    | opening => exact Nat.le_trans (Nat.le_succ k) (ih (k + 1))
    | closing => exact Nat.le_max_left ..
    | numeral => exact ih k

/-- Numerals open nothing. -/
theorem nestingFrom_numerals (k : Nat) (numerals : List (List Char)) (ms : List Mark) :
    nestingFrom k (numerals.map .numeral ++ ms) = nestingFrom k ms := by
  induction numerals with
  | nil => rfl
  | cons digits more ih => exact ih

/-- A phrase opens as many groups at once as it nests, and closes them again. -/
theorem nestingFrom_phrase (p : Phrase) (k : Nat) (ms : List Mark) :
    nestingFrom k (p.marks ++ ms) = max (k + p.nesting) (nestingFrom k ms) := by
  have hle := le_nestingFrom k ms
  induction p generalizing k ms with
  | reference | quoted | prose => simp [Phrase.marks, Phrase.nesting]; omega
  | codes numbers =>
    rw [Phrase.marks, nestingFrom_numerals, Phrase.nesting]
    omega
  -- inside the bracket one more is open, and the bracket that closes it takes that back
  | group body ih | option body ih =>
    have hclose : k + 1 ≤ nestingFrom (k + 1) (.closing :: ms) := le_nestingFrom ..
    simp only [Phrase.marks, List.cons_append, List.append_assoc, List.nil_append, nestingFrom,
      ih _ _ hclose, Phrase.nesting, Nat.add_sub_cancel]
    omega
  | times bounds body ih =>
    rw [Phrase.marks, List.append_assoc, nestingFrom_numerals, ih k ms hle, Phrase.nesting]
  | seq a b iha ihb | alt a b iha ihb =>
    rw [Phrase.marks, List.append_assoc, iha k _ (le_nestingFrom ..), ihb k ms hle, Phrase.nesting]
    omega

theorem numeralsFit_append {ms ms' : List Mark} :
    NumeralsFit (ms ++ ms') ↔ NumeralsFit ms ∧ NumeralsFit ms' := by
  simp only [NumeralsFit, List.mem_append, or_imp, forall_and]

theorem numeralsFit_numerals {numerals : List (List Char)} :
    NumeralsFit (numerals.map .numeral) ↔
      ∀ digits ∈ numerals, digits.length ≤ Text.decimalLimit := by
  simp [NumeralsFit]

/-- The numerals of a phrase are not too long exactly if the phrase fits. -/
theorem numeralsFit_phrase (p : Phrase) : NumeralsFit p.marks ↔ p.Fits := by
  induction p with
  | reference | quoted | prose => simp [Phrase.marks, Phrase.Fits, NumeralsFit]
  | codes numbers =>
    rw [Phrase.marks, numeralsFit_numerals, Phrase.Fits]
    cases numbers with
    | row base first more =>
      cases base <;> simp [Numbers.decimals, Numbers.Fits, Base.Fits]
    | range base first last =>
      cases base <;> simp [Numbers.decimals, Numbers.Fits, Base.Fits]
  | group body ih | option body ih =>
    rw [Phrase.Fits, ← ih]
    simp [Phrase.marks, NumeralsFit]
  | times bounds body ih =>
    rw [Phrase.marks, numeralsFit_append, numeralsFit_numerals, Phrase.Fits, ih]
    cases bounds <;> simp [Bounds.decimals, Bounds.Fits, Base.Fits]
  | seq a b iha ihb | alt a b iha ihb =>
    rw [Phrase.marks, numeralsFit_append, iha, ihb, Phrase.Fits]

/-! ## The limits of a grammar -/

/-- A comment has no marks. -/
theorem Remark.marks_eq (h : Remark remark) : marks remark = [] := by
  rw [← marks_dropComment, h.dropComment]
  rfl

theorem LineEnd.marks_append (h : LineEnd nl) : marks (nl ++ rest) = marks rest := by
  rw [← marks_dropComment, marks_lineEnd h.lineEnd?]

theorem Definition.marks_sign (d : Definition) : marks (d.sign ++ cs) = marks cs := by
  unfold Definition.sign
  split
  · have hequals : marks ('=' :: '/' :: cs) = [] ++ marks ('/' :: cs) := marks_cons rfl
    exact hequals.trans (marks_cons (c := '/') rfl)
  · exact marks_cons (c := '=') rfl

/-- A rule has the marks of its body. -/
theorem RuleText.marks_append (h : RuleText d u) (hrest : Boundary rest) :
    marks (u ++ rest) = d.body.marks ++ marks rest := by
  obtain ⟨hname, hv, hw, hp, hx⟩ := h
  simp only [List.append_assoc]
  rw [marks_name (hname.name?_append (not_isNameChar_head hv)), marks_blanks hv, d.marks_sign,
    marks_blanks hw, hp.marks_append (hx.boundary hrest), marks_blanks hx]

/-- The marks of a text are those of its rules, in order. -/
theorem Ended.marks_eq (h : Ended ds text) : marks text = ds.flatMap (·.body.marks) := by
  induction h with
  | blank hw hr => rw [marks_blanks hw, hr.marks_eq, List.flatMap_nil]
  | rule hu hr =>
    rw [hu.marks_append hr.boundary, hr.marks_eq]
    simp
  | blankLine hw hnl _ ih => rw [marks_blanks hw, hnl.marks_append, ih]
  | ruleLine hu hnl _ ih =>
    rw [hu.marks_append hnl.boundary, hnl.marks_append, ih, List.flatMap_cons]

/-- Between rules nothing is open, so each of them has the whole depth. -/
theorem nestingFrom_rules [Interpreter] (ds : List Definition) :
    nestingFrom 0 (ds.flatMap (·.body.marks)) < depthLimit ↔
      ∀ d ∈ ds, d.body.nesting < depthLimit := by
  induction ds with
  | nil => simp [nestingFrom, depthLimit_pos]
  | cons d ds ih =>
    rw [List.flatMap_cons, nestingFrom_phrase, List.forall_mem_cons, ← ih]
    omega

/-- A grammar keeps to the limits if its rules do. -/
theorem Ended.withinLimits_iff [Interpreter] (h : Ended ds text) :
    WithinLimits text ↔ ∀ d ∈ ds, d.body.nesting < depthLimit ∧ d.body.Fits := by
  rw [WithinLimits, h.marks_eq, nestingFrom_rules]
  have hfits : NumeralsFit (ds.flatMap (·.body.marks)) ↔ ∀ d ∈ ds, d.body.Fits := by
    clear h
    induction ds with
    | nil => simp [NumeralsFit]
    | cons d ds ih =>
      rw [List.flatMap_cons, numeralsFit_append, numeralsFit_phrase, List.forall_mem_cons, ih]
  simp only [hfits, forall_and]

/-! ## The limits of what is read -/

/-- A fault is about no limit, unless the marks of a text exceed that limit. -/
structure Exceeds (fault : Fault) (k depth : Nat) (cs : List Char) : Prop where
  nesting : fault.cause = .nestedTooDeeply → k + depth ≤ nestingFrom k (marks cs)
  numeral : ∀ long, fault.cause = .numeralTooLong long → ¬ NumeralsFit (marks cs)

/-- Where marks come before a text that are in balance, the whole exceeds what the text does. -/
theorem Exceeds.of_marks {ms : List Mark} (h : Exceeds fault k depth rest)
    (hmarks : marks cs = ms ++ marks rest)
    (hms : nestingFrom k (marks rest) ≤ nestingFrom k (ms ++ marks rest)) :
    Exceeds fault k depth cs where
  nesting hcause := by
    rw [hmarks]
    exact Nat.le_trans (h.nesting hcause) hms
  numeral long hcause := by
    rw [hmarks, numeralsFit_append]
    exact fun hfit => h.numeral long hcause hfit.2

/-- A text without marks in front changes nothing. -/
theorem Exceeds.of_marks_eq (h : Exceeds fault k depth rest) (hmarks : marks cs = marks rest) :
    Exceeds fault k depth cs :=
  @Exceeds.of_marks _ _ _ _ _ [] h hmarks (Nat.le_refl _)

/-- Nor do numerals. -/
theorem Exceeds.of_numerals {numerals : List (List Char)} (h : Exceeds fault k depth rest)
    (hmarks : marks cs = numerals.map .numeral ++ marks rest) : Exceeds fault k depth cs :=
  h.of_marks hmarks (Nat.le_of_eq (nestingFrom_numerals ..).symm)

/-- Nor does a phrase, whose brackets are in balance. -/
theorem Exceeds.of_derives (h : Exceeds fault k depth rest) (hp : Derives n p u)
    (hrest : Boundary rest) : Exceeds fault k depth (u ++ rest) :=
  h.of_marks (hp.marks_append hrest) (by rw [nestingFrom_phrase]; omega)

/-- A fault about what was expected, or what is not defined, is about no limit. -/
theorem Exceeds.of_cause (hnesting : fault.cause ≠ .nestedTooDeeply)
    (hnumeral : ∀ long, fault.cause ≠ .numeralTooLong long) : Exceeds fault k depth cs where
  nesting hcause := absurd hcause hnesting
  numeral long hcause := absurd hcause (hnumeral long)

/-- A fault is about no limit, unless one of these numerals is too long. -/
structure TooLong (fault : Fault) (numerals : List (List Char)) : Prop where
  nesting : fault.cause ≠ .nestedTooDeeply
  numeral : ∀ long, fault.cause = .numeralTooLong long →
    ∃ digits ∈ numerals, Text.decimalLimit < digits.length

/-- A numeral that is too long is one of the marks. -/
theorem TooLong.exceeds {numerals : List (List Char)} {ms : List Mark} (h : TooLong fault numerals)
    (hmarks : marks cs = numerals.map .numeral ++ ms) : Exceeds fault k depth cs where
  nesting hcause := absurd hcause h.nesting
  numeral long hcause := by
    obtain ⟨digits, hmem, hlong⟩ := h.numeral long hcause
    rw [hmarks, numeralsFit_append, numeralsFit_numerals]
    exact fun hfit => absurd (hfit.1 digits hmem) (Nat.not_le.mpr hlong)

section

variable {numerals : List (List Char)} {digits : List Char} {base : Base}

theorem decimalAt_error (h : decimalAt digits left = .error fault) (hmem : digits ∈ numerals) :
    TooLong fault numerals := by
  unfold decimalAt Text.decimalValue at h
  by_cases hle : digits.length ≤ Text.decimalLimit
  · simp [hle] at h
  · simp only [hle, if_false, refuse] at h
    cases h
    exact ⟨(fun h => by cases h), fun _ _ => ⟨digits, hmem, Nat.lt_of_not_le hle⟩⟩

theorem valueAt_error (h : valueAt base digits left = .error fault)
    (hmem : base = .decimal → digits ∈ numerals) : TooLong fault numerals := by
  cases base with
  | binary | hexadecimal => cases h
  | decimal => exact decimalAt_error h (hmem rfl)

theorem checkCode_error {code : Nat} (h : checkCode code left = .error fault) :
    TooLong fault numerals := by
  unfold checkCode at h
  split at h
  · cases h
    exact ⟨nofun, nofun⟩
  · cases h

/-- Code points in a row fail for a numeral of the row, or for a cause that is no limit. -/
theorem codesAt_error {row : List (List Char)} (h : codesAt base left row = .error fault)
    (hmem : base = .decimal → row ⊆ numerals) : TooLong fault numerals := by
  induction row with
  | nil => cases h
  | cons digits more ih =>
    simp only [codesAt, Except.bind_eq_error] at h
    rcases h with h | ⟨_, _, h | ⟨_, _, h | ⟨_, _, h⟩⟩⟩
    · exact valueAt_error h fun hbase => hmem hbase (List.mem_cons_self ..)
    · exact checkCode_error h
    · exact ih h fun hbase => fun d hd => hmem hbase (List.mem_cons_of_mem _ hd)
    · cases h

/-- Bounds fail for one of their numerals, or because they are the wrong way around. -/
theorem resolveBounds_error {bounds : Bounds} (h : resolveBounds bounds left = .error fault) :
    TooLong fault bounds.decimals := by
  match bounds with
  | .exact count =>
    simp only [resolveBounds, Except.bind_eq_error] at h
    rcases h with h | ⟨_, _, h⟩
    · exact decimalAt_error h (by simp [Bounds.decimals])
    · cases h
  | .range [] [] => cases h
  | .range (c :: least) [] =>
    simp only [resolveBounds, Except.bind_eq_error] at h
    rcases h with h | ⟨_, _, h⟩
    · exact decimalAt_error h (by simp [Bounds.decimals])
    · cases h
  | .range [] (d :: most) =>
    simp only [resolveBounds, Except.bind_eq_error] at h
    rcases h with h | ⟨_, _, h⟩
    · exact decimalAt_error h (by simp [Bounds.decimals])
    · cases h
  | .range (c :: least) (d :: most) =>
    simp only [resolveBounds, Except.bind_eq_error] at h
    rcases h with h | ⟨_, _, h | ⟨_, _, h⟩⟩
    · exact decimalAt_error h (by simp [Bounds.decimals])
    · exact decimalAt_error h (by simp [Bounds.decimals])
    · split at h
      · cases h
        exact ⟨(fun h => by cases h), fun _ h => by cases h⟩
      · cases h

/-- Numbers fail for one of their numerals, or for a cause that is no limit. -/
theorem resolveNumbers_error {numbers : Numbers} (h : resolveNumbers numbers left = .error fault) :
    TooLong fault numbers.decimals := by
  cases numbers with
  | row base first more =>
    simp only [resolveNumbers, Except.bind_eq_error] at h
    rcases h with h | ⟨_, _, h⟩
    · exact codesAt_error h fun hbase => by simp [Numbers.decimals, hbase]
    · cases h
  | range base first last =>
    simp only [resolveNumbers, Except.bind_eq_error] at h
    rcases h with h | ⟨_, _, h | ⟨_, _, h⟩⟩
    · exact valueAt_error h fun hbase => by simp [Numbers.decimals, hbase]
    · exact valueAt_error h fun hbase => by simp [Numbers.decimals, hbase]
    · split at h
      · cases h
        exact ⟨(fun h => by cases h), fun _ h => by cases h⟩
      · simp only [Except.bind_eq_error] at h
        rcases h with h | ⟨_, _, h | ⟨_, _, h⟩⟩
        · exact checkCode_error h
        · exact checkCode_error h
        · cases h

end

/-- A repeat that is refused exceeds what its numerals do. -/
theorem readRepeat_exceeds (h : readRepeat cs = .error fault) : Exceeds fault k depth cs := by
  unfold readRepeat at h
  split at h
  · cases h
  · rename_i hbounds
    simp only [Except.bind_eq_error] at h
    rcases h with h | ⟨_, _, h⟩
    · exact (resolveBounds_error h).exceeds (marks_bounds hbounds)
    · cases h

/-- A repeat that is read has numerals for marks, and none if it is not there. -/
theorem marks_readRepeat {times : Option Repeat} {mid : List Char}
    (h : readRepeat cs = .ok (times, mid)) :
    ∃ numerals : List (List Char), marks cs = numerals.map .numeral ++ marks mid := by
  unfold readRepeat at h
  split at h
  · cases h
    exact ⟨[], rfl⟩
  · rename_i hbounds
    simp only [Except.bind_eq_ok, Except.pure_eq_ok] at h
    obtain ⟨_, -, heq⟩ := h
    cases heq
    exact ⟨_, marks_bounds hbounds⟩

/-- A group fails for what is inside it, or because it is not closed. -/
theorem readGroup_error {body : List Char → Except Fault (Expr × List Char)} {closing : Char}
    {expected : Expected} (h : readGroup body closing expected cs = .error fault) :
    body (skip cs) = .error fault ∨ fault.cause = .expected expected := by
  unfold readGroup at h
  simp only [Except.bind_eq_error] at h
  rcases h with h | ⟨_, _, h⟩
  · exact .inl h
  · split at h
    · split at h
      · cases h
      · cases h
        exact .inr rfl
    · cases h
      exact .inr rfl

/-- What is exceeded inside a group is exceeded from before its opening character. -/
theorem Exceeds.of_group (h : Exceeds fault (k + 1) depth (skip rest))
    (hmarks : marks cs = .opening :: marks rest) : Exceeds fault k (depth + 1) cs where
  nesting hcause := by
    have := h.nesting hcause
    rw [marks_skip] at this
    rw [hmarks, nestingFrom]
    omega
  numeral long hcause := by
    have := h.numeral long hcause
    rw [marks_skip] at this
    rw [hmarks]
    exact fun hfit => this fun digits hmem => hfit digits (List.mem_cons_of_mem _ hmem)

/-- An element may use up one level for its group; all else about it are tokens. -/
theorem readElement_exceeds {body : List Char → Except Fault (Expr × List Char)}
    (hbody : ∀ k cs fault, body cs = .error fault → Exceeds fault k depth cs)
    (h : readElement scope body cs = .error fault) : Exceeds fault k (depth + 1) cs := by
  -- the two kinds of brackets in one go
  have hgroup {closing : Char} {expected : Expected} {rest : List Char}
      (h : readGroup body closing expected rest = .error fault)
      (hmarks : marks cs = .opening :: marks rest) : Exceeds fault k (depth + 1) cs := by
    rcases readGroup_error h with h | hcause
    · exact (hbody (k + 1) _ _ h).of_group hmarks
    · exact .of_cause (by simp [hcause]) (by simp [hcause])
  unfold readElement at h
  split at h
  · simp only [Except.bind_eq_error] at h
    rcases h with h | ⟨_, _, h⟩
    · exact hgroup h (marks_cons (c := '(') rfl)
    · cases h
  · simp only [Except.bind_eq_error] at h
    rcases h with h | ⟨_, _, h⟩
    · exact hgroup h (marks_cons (c := '[') rfl)
    · cases h
  · cases h
  · cases h
  · split at h
    · rename_i hnumbers
      simp only [Except.bind_eq_error] at h
      rcases h with h | ⟨_, _, h⟩
      · exact (resolveNumbers_error h).exceeds (marks_numbers hnumbers)
      · cases h
    · cases h
  · split at h
    · simp only [Except.bind_eq_error] at h
      rcases h with h | ⟨_, _, h⟩
      · unfold resolveName at h
        split at h
        · cases h
        · cases h
          exact .of_cause nofun nofun
      · cases h
    · cases h

/--
What comes before a fault has been read and is in balance, so the fault is about what is left.
-/
theorem readConcatenation_exceeds
    {element : List Char → Except Fault (Option (Expr × List Char))}
    (herror : ∀ cs fault, element cs = .error fault → Exceeds fault k depth cs)
    (hsound : ∀ cs expr rest, element cs = .ok (some (expr, rest)) →
      ∃ p u, Derives .element p u ∧ cs = u ++ rest) :
    ∀ (n : Nat) {before : Option Expr} {cs : List Char} {fault : Fault},
      readConcatenation element n before cs = .error fault → Exceeds fault k depth cs
  | 0, _, _, _, h => by
      cases h
      exact .of_cause nofun nofun
  | n + 1, before, cs, fault, h => by
      rw [readConcatenation, Except.bind_eq_error] at h
      rcases h with h | ⟨⟨times, mid⟩, hrepeat, h⟩
      · exact readRepeat_exceeds h
      · obtain ⟨numerals, hmid⟩ := marks_readRepeat hrepeat
        refine Exceeds.of_numerals ?_ hmid
        simp only [Except.bind_eq_error] at h
        rcases h with h | ⟨taken, helement, h⟩
        · exact herror _ _ h
        · match taken with
          -- without an element the fault can only be that one was expected
          | none =>
            match times, before, h with
            | none, none, h | some _, _, h =>
              cases h
              exact .of_cause nofun nofun
          | some (expr, rest) =>
            obtain ⟨p, u, hp, rfl⟩ := hsound _ _ _ helement
            simp only at h
            split at h
            · cases h
            · rename_i left hskip
              obtain ⟨rfl, b, w, hb, -, hrest⟩ := exists_of_skip? hskip
              have hbound : Boundary rest := by
                rw [hrest]
                exact hb.boundary
              exact ((readConcatenation_exceeds herror hsound n h).of_marks_eq
                (marks_skip rest).symm).of_derives hp hbound

/-- Alternatives fail in the first of them or in the others. -/
theorem alternativesFrom_error {concatenation : List Char → Except Fault (Expr × List Char)}
    {n : Nat}
    (h : alternativesFrom concatenation n cs = .error fault) :
    concatenation cs = .error fault ∨ ∃ first rest, concatenation cs = .ok (first, rest) ∧
      readAlternatives concatenation n (skip rest) = .error fault := by
  simp only [alternativesFrom, Except.bind_eq_error] at h
  rcases h with h | ⟨⟨first, rest⟩, hread, h | ⟨_, _, h⟩⟩
  · exact .inl h
  · exact .inr ⟨first, rest, hread, h⟩
  · cases h

/-- The others fail behind a slash. -/
theorem readAlternatives_error {concatenation : List Char → Except Fault (Expr × List Char)}
    {n : Nat}
    (h : readAlternatives concatenation n cs = .error fault) :
    ∃ m tail, n = m + 1 ∧ cs = '/' :: tail ∧
      alternativesFrom concatenation m (skip tail) = .error fault := by
  unfold readAlternatives at h
  split at h
  · rename_i m tail
    refine ⟨m, tail, rfl, rfl, ?_⟩
    simp only [alternativesFrom, Except.bind_eq_error] at h ⊢
    rcases h with h | ⟨_, hread, h | ⟨_, _, h⟩⟩
    · exact .inl h
    · exact .inr ⟨_, hread, .inl h⟩
    · cases h
  · cases h

/-- The same of alternatives: those that have been read are in balance. -/
theorem alternativesFrom_exceeds {concatenation : List Char → Except Fault (Expr × List Char)}
    (herror : ∀ cs fault, concatenation cs = .error fault → Exceeds fault k depth cs)
    (hsound : ∀ cs expr rest, concatenation cs = .ok (expr, rest) →
      BeginsWith .concatenation cs rest) (n : Nat) :
    ∀ {cs : List Char} {fault : Fault},
      alternativesFrom concatenation n cs = .error fault → Exceeds fault k depth cs := by
  -- on the number of alternatives that may follow: what the first one took has its brackets in
  -- balance, so the others are met at the nesting that the first was met at
  induction n with
  | zero =>
    intro cs fault h
    rcases alternativesFrom_error h with h | ⟨_, _, _, h⟩
    · exact herror _ _ h
    · obtain ⟨_, _, hn, -⟩ := readAlternatives_error h
      cases hn
  | succ n ih =>
    intro cs fault h
    rcases alternativesFrom_error h with h | ⟨first, rest, hread, h⟩
    · exact herror _ _ h
    · obtain ⟨m, tail, hn, htail, hmore⟩ := readAlternatives_error h
      obtain rfl := Nat.succ.inj hn
      obtain ⟨p, u, w, hp, hw, rfl⟩ := (hsound _ _ _ hread).skip
      rw [htail]
      have hmarks : marks (w ++ '/' :: tail) = marks (skip tail) := by
        rw [marks_blanks hw, marks_skip]
        exact marks_cons (c := '/') rfl
      exact ((ih hmore).of_marks_eq hmarks).of_derives hp (hw.boundary (.cons (by decide)))

/-- Where groups may nest so deeply, they nest more deeply if the reader says so. -/
theorem readAlternation_exceeds : ∀ (depth k : Nat) (cs : List Char) (fault : Fault),
    readAlternation scope depth cs = .error fault → Exceeds fault k depth cs
  | 0, k, cs, fault, h => by
      cases h
      exact ⟨fun _ => le_nestingFrom .., nofun⟩
  | depth + 1, k, cs, fault, h => by
      -- reading an alternation is reading alternatives, up to what is made of them
      have hfrom : alternativesFrom (concatenationAt scope depth) cs.length cs = .error fault := by
        simp only [readAlternation, alternativesFrom, Except.bind_eq_error] at h ⊢
        rcases h with h | ⟨_, hread, h | ⟨_, _, h⟩⟩
        · exact .inl h
        · exact .inr ⟨_, hread, .inl h⟩
        · cases h
      refine alternativesFrom_exceeds (fun cs fault h => ?_) (concatenationAt_sound depth) _ hfrom
      refine readConcatenation_exceeds (fun cs fault h => ?_) (elementAt_sound depth) _ h
      exact readElement_exceeds (fun k => readAlternation_exceeds depth k) h

variable [Interpreter]

/-- A definition is refused for its body, or for a cause that is no limit. -/
theorem readDefinition_exceeds {name : Name} (h : readDefinition scope name cs = .error fault) :
    Exceeds fault 0 depthLimit cs := by
  -- neither the name nor the sign counts, so what exceeds the limits in the body does so in the
  -- line
  have hbody {adds : Bool} {left : List Char} (hsign : definedAs? (skip cs) = some (adds, left))
      (h : readAlternation scope depthLimit (skip left) = .error fault) :
      Exceeds fault 0 depthLimit cs := by
    refine (readAlternation_exceeds _ 0 _ _ h).of_marks_eq ?_
    have hsign' := exists_of_definedAs? hsign
    rw [← marks_skip cs, hsign', marks_skip]
    exact Definition.marks_sign ⟨[], adds, .quoted []⟩
  unfold readDefinition at h
  split at h
  · cases h
    exact .of_cause nofun nofun
  · split at h
    · cases h
      exact .of_cause nofun nofun
    · rename_i hsign
      simp only [Except.bind_eq_error] at h
      rcases h with h | ⟨_, _, h⟩
      · exact hbody hsign h
      · cases h
    · rename_i hsign
      split at h
      · cases h
        exact .of_cause nofun nofun
      · simp only [Except.bind_eq_error] at h
        rcases h with h | ⟨_, _, h⟩
        · exact hbody hsign h
        · cases h

/-- The name of a rule has no marks. -/
theorem readLine_exceeds (h : readLine scope cs = .error fault) :
    Exceeds fault 0 depthLimit cs := by
  unfold readLine at h
  split at h
  · cases h
  · rename_i hname
    simp only [Except.bind_eq_error] at h
    rcases h with h | ⟨_, _, h⟩
    · exact (readDefinition_exceeds h).of_marks_eq (marks_name hname)
    · cases h

/-- The lines that have been read are in balance, so the fault is about those that are left. -/
theorem readLines_exceeds : ∀ (n : Nat) {scope : Scope} {text : List Char} {fault : Fault},
    readLines n scope text = .error fault → Exceeds fault 0 depthLimit text
  | 0, _, _, _, h => by
      cases h
      exact .of_cause nofun nofun
  | n + 1, scope, text, fault, h => by
      rw [readLines, Except.bind_eq_error] at h
      rcases h with h | ⟨⟨⟨added, defined⟩, rest⟩, hread, h⟩
      · exact readLine_exceeds h
      · simp only at h
        split at h
        · cases h
        · split at h
          · rename_i left hend
            obtain ⟨remark, hr, hline⟩ := readLine_sound hread
            obtain ⟨nl, hb, rfl⟩ := exists_of_lineEnd? hend
            have hnl : LineEnd (remark ++ nl) := .mk hr hb
            have hleft := (readLines_exceeds n h).of_marks_eq hnl.marks_append
            simp only at hline
            rw [← List.append_assoc remark] at hline
            -- a line that has been read is blank or a rule
            rcases hline with ⟨w, hw, rfl, -⟩ | ⟨d, u, hu, rfl, -⟩
            · exact hleft.of_marks_eq (marks_blanks hw)
            · exact hleft.of_marks (hu.marks_append hnl.boundary)
                (by rw [nestingFrom_phrase]; omega)
          · cases h
            exact .of_cause (fun h => by cases h) fun _ h => by cases h

/-- A text within the limits is refused at a position. -/
theorem position?_isSome {given : Rules} {e : Error} (h : read given text = .error e)
    (htext : WithinLimits text) : e.position?.isSome := by
  unfold read at h
  split at h
  · cases h
  · rename_i fault hread
    obtain ⟨hnesting, hnumeral⟩ := readLines_exceeds _ hread
    cases h
    unfold Error.position?
    split
    · -- without a position there are two causes, the two limits
      rename_i long hcause
      exact absurd htext.2 (hnumeral long hcause)
    · rename_i hcause
      have hle := hnesting hcause
      exact absurd htext.1 (by omega)
    · rfl

end Abnf.Grammar
