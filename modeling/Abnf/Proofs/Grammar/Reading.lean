import Abnf.Proofs.Grammar.Tokens
import Abnf.Proofs.Grammar.Verdict

/-!
# Reading what is derived

A text that is derived from the notation is read as what its phrase stands for, whatever derivation
that is, and the reading fails for the cause that the phrase has if it stands for nothing. The proof
follows a derivation from the left: each nonterminal has a statement of its own, `ReadsAs`, about
any text that goes on with what may stand behind it.

White space behind the last element is taken by whoever comes first, here the concatenation, which
hopes for one more element. So what is left after an alternation is always left after white space.
-/

namespace Abnf.Grammar

open Token

variable {scope : Scope} {p q : Phrase} {u v w x cs left rest : List Char} {depth : Nat}

/-! ## How phrases start -/

/-- A character that an element starts with. -/
def startsElement (c : Char) : Bool := isLetter c || ['(', '[', '"', '<', '%'].contains c

/-- A character that a repeated element starts with. -/
def startsPhrase (c : Char) : Bool := startsElement c || Text.isAsciiDigit c || c = '*'

/-- What may start a phrase of a nonterminal. -/
def Nonterminal.starts : Nonterminal → Char → Bool
  | .element => startsElement
  | _ => startsPhrase

/-- What starts an element starts a phrase, and so does a repeat. -/
theorem startsPhrase_of_startsElement {c : Char} (h : startsElement c) : startsPhrase c := by
  simp [startsPhrase, h]

theorem startsElement_of_isLetter {c : Char} (h : isLetter c) : startsElement c := by
  simp [startsElement, h]

theorem startsPhrase_of_bounds {c : Char} (h : Text.isAsciiDigit c ∨ c = '*') :
    startsPhrase c := by
  simp only [startsPhrase, Bool.or_eq_true, decide_eq_true_eq]
  rcases h with h | h
  · exact .inl (.inr h)
  · exact .inr h

/-- A repeat starts with a digit or an asterisk. -/
theorem RepeatText.head {bounds : Bounds} (h : RepeatText bounds u) :
    ∃ c tail, u = c :: tail ∧ (Text.isAsciiDigit c ∨ c = '*') := by
  cases h with
  | exact hcount =>
    obtain ⟨hne, hall⟩ := hcount
    cases u with
    | nil => exact absurd rfl hne
    | cons c tail => exact ⟨c, tail, rfl, .inl (hall c (List.mem_cons_self ..))⟩
  | @range least most hleast hmost =>
    cases least with
    | nil => exact ⟨_, _, rfl, .inr rfl⟩
    | cons c least => exact ⟨c, _, rfl, .inl (hleast c (List.mem_cons_self ..))⟩

/-- By its first character a text may be the phrase that it is. -/
theorem Derives.head {n : Nonterminal} (h : Derives n p u) :
    ∃ c tail, u = c :: tail ∧ n.starts c := by
  -- the first character is that of the first part, down to an element or a repeat
  induction h with
  | reference hname =>
    obtain ⟨hc, -⟩ := hname
    exact ⟨_, _, rfl, startsElement_of_isLetter hc⟩
  | group | option | quoted | codes | prose => exact ⟨_, _, rfl, by decide⟩
  | once _ ih =>
    obtain ⟨c, tail, rfl, hc⟩ := ih
    exact ⟨c, tail, rfl, startsPhrase_of_startsElement hc⟩
  | times hbounds _ _ =>
    obtain ⟨c, tail, rfl, hc⟩ := hbounds.head
    exact ⟨c, _, rfl, startsPhrase_of_bounds hc⟩
  | single _ ih | only _ ih => exact ih
  | seq _ _ _ _ ih _ | alt _ _ _ _ ih _ =>
    obtain ⟨c, tail, rfl, hc⟩ := ih
    exact ⟨c, _, rfl, hc⟩

theorem Derives.startsPhrase_head {n : Nonterminal} (h : Derives n p u) :
    ∃ c tail, u = c :: tail ∧ startsPhrase c := by
  obtain ⟨c, tail, rfl, hc⟩ := h.head
  refine ⟨c, tail, rfl, ?_⟩
  cases n
  · exact startsPhrase_of_startsElement hc
  all_goals exact hc

/-- No white space starts where a phrase does. -/
theorem blank?_of_startsPhrase {c : Char} (h : startsPhrase c) : blank? (c :: rest) = none := by
  have hc : ¬ isBlank c ∧ c ≠ ';' ∧ c ≠ '\n' ∧ c ≠ '\r' := by
    refine ⟨fun hblank => ?_, ?_, ?_, ?_⟩
    · rcases eq_of_isBlank hblank with rfl | rfl <;> exact absurd h (by decide)
    all_goals
      rintro rfl
      exact absurd h (by decide)
  simp [blank?, dropComment, lineEnd?, hc]

theorem Derives.skip_append {n : Nonterminal} (h : Derives n p u) :
    skip (u ++ rest) = u ++ rest := by
  obtain ⟨c, tail, rfl, hc⟩ := h.startsPhrase_head
  exact skip_of_blank?_eq_none (blank?_of_startsPhrase hc)

/-- No element starts with a digit, so a repeat ends where its element begins. -/
theorem not_digit_of_startsElement {c : Char} (h : startsElement c) : ¬ Text.isAsciiDigit c := by
  simp only [startsElement, isLetter, Text.isAsciiDigit, Bool.or_eq_true, Bool.and_eq_true,
    decide_eq_true_eq, Char.le_def, UInt32.le_iff_toNat_le, List.contains_iff_mem] at h ⊢
  rintro ⟨h0, h9⟩
  rcases h with (⟨hA, -⟩ | ⟨ha, -⟩) | hmem
  · exact absurd (Nat.le_trans hA h9) (by decide)
  · exact absurd (Nat.le_trans ha h9) (by decide)
  · simp only [List.mem_cons, List.not_mem_nil, or_false] at hmem
    revert h0 h9
    rcases hmem with rfl | rfl | rfl | rfl | rfl <;> decide

/-- No repeat starts where an element does. -/
theorem bounds?_of_startsElement {c : Char} (h : startsElement c) : bounds? (c :: rest) = none := by
  have hdigit := not_digit_of_startsElement h
  have hstar : c ≠ '*' := by
    rintro rfl
    exact absurd h (by decide)
  simp [bounds?, run, hdigit, hstar]

/-! ## What may follow -/

/-- A character that stands behind a concatenation and the white space after it. -/
def endsConcatenation (c : Char) : Bool := [';', '\n', '\r', '/', ')', ']'].contains c

/-- What may stand behind a concatenation. -/
def Stops (rest : List Char) : Prop := ∀ c ∈ (skip rest).head?, endsConcatenation c

/-- What may stand behind an alternation. -/
def Closed (rest : List Char) : Prop := Stops rest ∧ (skip rest).head? ≠ some '/'

/-- Where a concatenation stops, an element has ended. -/
theorem Stops.boundary (h : Stops rest) : Boundary rest := by
  obtain ⟨w, hw, hrest⟩ := exists_blanks_skip rest
  rw [hrest]
  refine hw.boundary fun c hc => ?_
  have hmem := h c hc
  simp only [endsConcatenation, List.contains_iff_mem, List.mem_cons, List.not_mem_nil,
    or_false] at hmem
  rcases hmem with rfl | rfl | rfl | rfl | rfl | rfl <;> decide

/-- Behind white space stands a character that ends a concatenation. -/
theorem Blanks.stops {c : Char} (h : Blanks w) (hblank : blank? (c :: rest) = none)
    (hc : endsConcatenation c) : Stops (w ++ c :: rest) := by
  unfold Stops
  rw [h.skip_append, skip_of_blank?_eq_none hblank]
  simpa using hc

/-- White space before what ends a concatenation, unless more alternatives follow. -/
theorem Blanks.closed {c : Char} (h : Blanks w) (hblank : blank? (c :: rest) = none)
    (hc : endsConcatenation c) (hslash : c ≠ '/') : Closed (w ++ c :: rest) := by
  refine ⟨h.stops hblank hc, ?_⟩
  rw [h.skip_append, skip_of_blank?_eq_none hblank]
  simpa using hslash

/-- What a concatenation does behind an element: it ends, or goes on behind white space. -/
def continueFrom (element : List Char → Except Fault (Option (Expr × List Char))) (n : Nat)
    (before : Expr) (rest : List Char) : Except Fault (Expr × List Char) :=
  match skip? rest with
  | none => .ok (before, rest)
  | some rest => readConcatenation element n (some before) rest

/-- What one round of a concatenation can do. -/
theorem readConcatenation_eq_ok {element : List Char → Except Fault (Option (Expr × List Char))}
    {n : Nat} {before : Option Expr} {x : Expr × List Char} :
    readConcatenation element (n + 1) before cs = .ok x ↔
      ∃ times mid, readRepeat cs = .ok (times, mid) ∧
        ((element mid = .ok none ∧ times = none ∧ ∃ expr, before = some expr ∧ x = (expr, mid)) ∨
          ∃ expr rest, element mid = .ok (some (expr, rest)) ∧
            continueFrom element n (append before (applyRepeat times expr)) rest = .ok x) := by
  rw [readConcatenation]
  simp only [Except.bind_eq_ok, Prod.exists]
  refine exists_congr fun times => exists_congr fun mid => and_congr_right fun _ => ?_
  constructor
  · rintro ⟨taken, htaken, h⟩
    match taken, times, before with
    | some (expr, rest), _, _ => exact .inr ⟨expr, rest, htaken, h⟩
    | none, none, some before =>
      cases h
      exact .inl ⟨htaken, rfl, before, rfl, rfl⟩
    | none, none, none | none, some _, _ => cases h
  · rintro (⟨htaken, rfl, before, rfl, rfl⟩ | ⟨expr, rest, htaken, h⟩)
    · exact ⟨none, htaken, rfl⟩
    · exact ⟨some (expr, rest), htaken, h⟩

/-- The first alternative and those after it; at most so many. -/
def alternativesFrom (concatenation : List Char → Except Fault (Expr × List Char)) (n : Nat)
    (cs : List Char) : Except Fault ((Expr × List Expr) × List Char) := do
  let (first, rest) ← concatenation cs
  let (more, rest) ← readAlternatives concatenation n (skip rest)
  return ((first, more), rest)

/-- The elements in groups that may nest so deeply. -/
def elementAt (scope : Scope) (depth : Nat) :
    List Char → Except Fault (Option (Expr × List Char)) :=
  readElement scope (readAlternation scope depth)

/-- The concatenations in groups that may nest so deeply. -/
def concatenationAt (scope : Scope) (depth : Nat) (cs : List Char) :
    Except Fault (Expr × List Char) :=
  readConcatenation (elementAt scope depth) (cs.length + 1) none cs

/-- When alternatives come out well: the first of them does, and then the others do. -/
theorem alternativesFrom_eq_ok {concatenation : List Char → Except Fault (Expr × List Char)}
    {n : Nat} {x : (Expr × List Expr) × List Char} :
    alternativesFrom concatenation n cs = .ok x ↔
      ∃ first rest, concatenation cs = .ok (first, rest) ∧
        ∃ more left, readAlternatives concatenation n (skip rest) = .ok (more, left) ∧
          x = ((first, more), left) := by
  unfold alternativesFrom
  simp only [Except.bind_eq_ok, Except.pure_eq_ok, Prod.exists, eq_comm (b := x)]

/-- Reading an alternation is reading its alternatives, one level up. -/
theorem readAlternation_succ : readAlternation scope (depth + 1) cs = do
    let r ← alternativesFrom (concatenationAt scope depth) cs.length cs
    return (.anyOf r.1.1 r.1.2, r.2) := by
  unfold readAlternation alternativesFrom
  simp only [bind_assoc, pure_bind]
  rfl

theorem readAlternation_eq_ok {x : Expr × List Char} :
    readAlternation scope (depth + 1) cs = .ok x ↔
      ∃ r, alternativesFrom (concatenationAt scope depth) cs.length cs = .ok r ∧
        x = (.anyOf r.1.1 r.1.2, r.2) := by
  simp only [readAlternation_succ, Except.bind_eq_ok, Except.pure_eq_ok, eq_comm (a := x)]

/-- Behind a slash come alternatives again. -/
theorem readAlternatives_slash {concatenation : List Char → Except Fault (Expr × List Char)}
    {n : Nat} : readAlternatives concatenation (n + 1) ('/' :: cs) = do
      let r ← alternativesFrom concatenation n (skip cs)
      return (r.1.1 :: r.1.2, r.2) := by
  rw [readAlternatives]
  unfold alternativesFrom
  simp only [bind_assoc, pure_bind]

/-- Without one there are no more. -/
theorem readAlternatives_stop (concatenation : List Char → Except Fault (Expr × List Char))
    {n : Nat}
    (h : cs.head? ≠ some '/') : readAlternatives concatenation n cs = .ok ([], cs) := by
  unfold readAlternatives
  split
  · simp at h
  · rfl

/-! ## Readings -/

/-- Before what no concatenation goes on with, one that has begun ends behind the white space. -/
theorem continueFrom_stops {n : Nat} {before : Expr} (h : Stops rest) :
    continueFrom (elementAt scope depth) (n + 1) before rest = .ok (before, skip rest) := by
  unfold continueFrom
  split
  · rename_i hskip
    rw [skip_of_skip?_eq_none hskip]
  · rename_i left hskip
    obtain ⟨rfl, -⟩ := exists_of_skip? hskip
    -- what ends a concatenation starts neither a repeat nor an element
    have hnone : bounds? (skip rest) = none ∧
        elementAt scope depth (skip rest) = .ok none := by
      unfold Stops at h
      generalize skip rest = left at h
      cases left with
      | nil => exact ⟨rfl, rfl⟩
      | cons c left =>
        have hc := h c rfl
        simp only [endsConcatenation, List.contains_iff_mem, List.mem_cons, List.not_mem_nil,
          or_false] at hc
        rcases hc with rfl | rfl | rfl | rfl | rfl | rfl <;> exact ⟨rfl, rfl⟩
    rw [readConcatenation, readRepeat, hnone.1]
    simp only [pure, Except.pure, bind, Except.bind, hnone.2]

/-- What it is that a text with a phrase of a nonterminal at its start is read. -/
def ReadsAs (scope : Scope) : Nonterminal → Phrase → List Char → Prop
  | .element, p, u => ∀ (depth : Nat) (rest : List Char), Boundary rest →
      outcome (elementAt scope depth (u ++ rest)) = do
        let expr ← p.verdictOne scope depth
        return some (expr, rest)
  | .repetition, p, u => ∀ (depth n : Nat) (before : Option Expr) (rest : List Char),
      Boundary rest →
      outcome (readConcatenation (elementAt scope depth) (n + 1) before (u ++ rest)) = do
        let expr ← p.verdictOne scope depth
        outcome (continueFrom (elementAt scope depth) n (append before expr) rest)
  | .concatenation, p, u => ∀ (depth n : Nat) (rest : List Char), Boundary rest →
      (u ++ rest).length < n → ∃ m, rest.length < m ∧
      outcome (readConcatenation (elementAt scope depth) n none (u ++ rest)) = do
        let expr ← p.verdictOne scope depth
        outcome (continueFrom (elementAt scope depth) m expr rest)
  | .alternation, p, u => ∀ (depth n : Nat) (rest : List Char), Closed rest → u.length ≤ n →
      outcome (alternativesFrom (concatenationAt scope depth) n (u ++ rest)) = do
        let r ← p.verdict scope depth
        return (r, skip rest)

/-- A name is read as a reference, for it starts with a letter and no other element does. -/
theorem ReadsAs.reference {name : List Char} (h : RuleName name) :
    ReadsAs scope .element (.reference name) name := by
  intro depth rest hrest
  have hname := h.name?_append (hrest.not_head (p := isNameChar) (by decide))
  have hletter : ∀ c ∈ name.head?, isLetter c := by
    obtain ⟨hc, -⟩ := h
    simpa using hc
  unfold elementAt readElement
  split
  case h_6 =>
    rw [hname]
    simp only [outcome_bind, outcome_pure, outcome_resolveName _ rest, Phrase.verdictOne_reference]
    rfl
  -- the other branches start with a character that is no letter
  all_goals
    rename_i heq
    cases name with
    | nil => cases h
    | cons c name =>
      obtain ⟨rfl, -⟩ := List.cons.inj heq
      exact absurd (hletter _ rfl) (by decide)

/-- What stands between parentheses or brackets is read up to the closing character. -/
theorem outcome_readGroup {closing : Char} {expected : Expected} (hv : Blanks v)
    (hp : Derives .alternation p u) (ih : ReadsAs scope .alternation p u) (hw : Blanks w)
    (hclosing : closing = ')' ∨ closing = ']') :
    outcome (readGroup (readAlternation scope depth) closing expected
        (v ++ (u ++ (w ++ closing :: rest)))) = do
      let expr ← (Phrase.group p).verdictOne scope depth
      return (expr, rest) := by
  have hblank : blank? (closing :: rest) = none := by
    rcases hclosing with rfl | rfl <;> rfl
  have hclosed : Closed (w ++ closing :: rest) :=
    hw.closed hblank (by rcases hclosing with rfl | rfl <;> decide)
      (by rcases hclosing with rfl | rfl <;> decide)
  unfold readGroup
  rw [hv.skip_append, hp.skip_append, outcome_bind]
  cases depth with
  | zero => rfl
  | succ depth =>
    have hlength : u.length ≤ (u ++ (w ++ closing :: rest)).length := by simp
    have hend : skip (skip (w ++ closing :: rest)) = closing :: rest := by
      rw [skip_skip, hw.skip_append, skip_of_blank?_eq_none hblank]
    rw [Phrase.verdictOne_group_succ, readAlternation_succ]
    simp only [outcome_bind, outcome_pure, ih depth _ _ hclosed hlength, Phrase.verdictOne,
      bind_assoc, pure_bind, hend, if_true]

/-- Parentheses are read, with what is inside them one level down. -/
theorem ReadsAs.group (hv : Blanks v) (hp : Derives .alternation p u)
    (ih : ReadsAs scope .alternation p u) (hw : Blanks w) :
    ReadsAs scope .element (.group p) ('(' :: (v ++ (u ++ (w ++ [')'])))) := by
  intro depth rest hrest
  unfold elementAt readElement
  simp only [List.cons_append, List.append_assoc, List.nil_append, outcome_bind, outcome_pure,
    outcome_readGroup hv hp ih hw (.inl rfl), bind_assoc, pure_bind]

/-- Brackets likewise. -/
theorem ReadsAs.option (hv : Blanks v) (hp : Derives .alternation p u)
    (ih : ReadsAs scope .alternation p u) (hw : Blanks w) :
    ReadsAs scope .element (.option p) ('[' :: (v ++ (u ++ (w ++ [']'])))) := by
  intro depth rest hrest
  unfold elementAt readElement
  simp only [List.cons_append, List.append_assoc, List.nil_append, outcome_bind, outcome_pure,
    outcome_readGroup hv hp ih hw (.inr rfl), Phrase.verdictOne_option, bind_assoc, pure_bind]

/-- A string is read up to its closing quote. -/
theorem ReadsAs.quoted {text : List Char} (h : ∀ c ∈ text, isQuotedChar c) :
    ReadsAs scope .element (.quoted text) ('"' :: (text ++ ['"'])) := by
  intro depth rest hrest
  unfold elementAt readElement
  simp only [List.cons_append, List.append_assoc, List.nil_append,
    upTo?_append h (show ¬ isQuotedChar '"' by decide)]
  rfl

/-- Prose is read, and has no meaning. -/
theorem ReadsAs.prose {text : List Char} (h : ∀ c ∈ text, isProseChar c) :
    ReadsAs scope .element (.prose text) ('<' :: (text ++ ['>'])) := by
  intro depth rest hrest
  unfold elementAt readElement
  simp only [List.cons_append, List.append_assoc, List.nil_append,
    upTo?_append h (show ¬ isProseChar '>' by decide)]
  rfl

/-- Numbers are read behind the percent sign. -/
theorem ReadsAs.codes {numbers : Numbers} (h : NumbersText numbers u) :
    ReadsAs scope .element (.codes numbers) ('%' :: u) := by
  intro depth rest hrest
  unfold elementAt readElement
  simp only [List.cons_append, h.numbers?_append hrest, outcome_bind, outcome_pure,
    outcome_resolveNumbers _ rest, Phrase.verdictOne_codes]

/-- A round that finds an element, under its repeat if there is one. -/
theorem outcome_readConcatenation {n : Nat} {before : Option Expr} {mid : List Char}
    {element : List Char → Except Fault (Option (Expr × List Char))}
    {times : Except Cause (Option Repeat)} {expr : Except Cause Expr}
    (hrepeat : outcome (readRepeat cs) = do
      let t ← times
      return (t, mid))
    (helement : outcome (element mid) = do
      let e ← expr
      return some (e, rest)) :
    outcome (readConcatenation element (n + 1) before cs) = (do
      let t ← times
      let e ← expr
      outcome (continueFrom element n (append before (applyRepeat t e)) rest)) := by
  rw [readConcatenation]
  simp only [outcome_bind, hrepeat, helement, bind_assoc, pure_bind]
  rfl

/-- An element without a repeat. -/
theorem ReadsAs.once (hp : Derives .element p u) (ih : ReadsAs scope .element p u) :
    ReadsAs scope .repetition p u := by
  intro depth n before rest hrest
  have hrepeat : outcome (readRepeat (u ++ rest)) = do
      let t ← pure none
      return (t, u ++ rest) := by
    obtain ⟨c, tail, rfl, hc⟩ := hp.head
    rw [readRepeat, List.cons_append, bounds?_of_startsElement hc]
    rfl
  rw [outcome_readConcatenation hrepeat (ih depth rest hrest)]
  rfl

/-- An element behind its repeat. -/
theorem ReadsAs.times {bounds : Bounds} (hbounds : RepeatText bounds v)
    (hp : Derives .element p u) (ih : ReadsAs scope .element p u) :
    ReadsAs scope .repetition (.times bounds p) (v ++ u) := by
  intro depth n before rest hrest
  have hrepeat : outcome (readRepeat (v ++ (u ++ rest))) = do
      let t ← some <$> outcome (resolveBounds bounds [])
      return (t, u ++ rest) := by
    obtain ⟨c, tail, rfl, hc⟩ := hp.head
    rw [readRepeat, hbounds.bounds?_append (by simpa using not_digit_of_startsElement hc)
      (by rintro ⟨⟩; exact absurd hc (by decide))]
    simp only [outcome_bind, outcome_pure, outcome_resolveBounds _ (_ ++ rest), map_eq_pure_bind,
      bind_assoc, pure_bind]
  rw [List.append_assoc, outcome_readConcatenation hrepeat (ih depth rest hrest),
    Phrase.verdictOne_times]
  simp only [map_eq_pure_bind, bind_assoc, pure_bind, applyRepeat]

/-- A concatenation of one part takes one round. -/
theorem ReadsAs.single (hp : Derives .repetition p u) (ih : ReadsAs scope .repetition p u) :
    ReadsAs scope .concatenation p u := by
  intro depth n rest hrest hn
  cases n with
  | zero => exact absurd hn (Nat.not_lt_zero _)
  | succ n =>
    refine ⟨n, ?_, ih depth n none rest hrest⟩
    obtain ⟨c, tail, rfl, -⟩ := hp.head
    simp only [List.cons_append, List.length_cons, List.length_append] at hn
    omega

/-- One more part takes one more round, behind the white space before it. -/
theorem ReadsAs.seq {b : List Char} (hb : Blank b) (hw : Blanks w) (hq : Derives .repetition q v)
    (ihp : ReadsAs scope .concatenation p u) (ihq : ReadsAs scope .repetition q v) :
    ReadsAs scope .concatenation (.seq p q) (u ++ (b ++ (w ++ v))) := by
  intro depth n rest hrest hn
  have hbound : Boundary (b ++ (w ++ (v ++ rest))) := hb.boundary
  -- behind the first part there is white space, over which the reader goes on to the second
  have hnext (m : Nat) (before : Expr) :
      continueFrom (elementAt scope depth) m before (b ++ (w ++ (v ++ rest))) =
        readConcatenation (elementAt scope depth) m (some before) (v ++ rest) := by
    rw [continueFrom, skip?_append hb hw, hq.skip_append]
  simp only [List.append_assoc] at hn ⊢
  obtain ⟨m, hm, hread⟩ := ihp depth n _ hbound hn
  have hpos := List.length_pos_iff.mpr hb.ne_nil
  simp only [List.length_append] at hm
  cases m with
  | zero => exact absurd hm (Nat.not_lt_zero _)
  | succ m =>
    refine ⟨m, by omega, ?_⟩
    simp only [hread, hnext, ihq depth m _ rest hrest, Phrase.verdictOne_seq, append, bind_assoc,
      pure_bind]

/-- Only an alternation says alternatives that nothing encloses. -/
theorem Derives.ne_alt {n : Nonterminal} (h : Derives n p u) (hn : n ≠ .alternation)
    (a b : Phrase) :
    p ≠ .alt a b := by
  induction h with
  | reference | group | option | quoted | codes | prose | times | seq => exact nofun
  | once _ ih | single _ ih => exact ih nofun
  | only | alt => exact absurd rfl hn

/-- What is no alternation has no further alternatives. -/
theorem Derives.verdict_eq {n : Nonterminal} (h : Derives n p u) (hn : n ≠ .alternation) :
    p.verdict scope depth = do
      let expr ← p.verdictOne scope depth
      return (expr, []) := by
  have hp := h.ne_alt hn
  cases p with
  | alt a b => exact absurd rfl (hp a b)
  | group body | option body =>
    cases depth with
    | zero => rfl
    | succ depth =>
      simp only [Phrase.verdictOne, Phrase.verdict, bind_assoc, pure_bind, Expr.anyOf]
  | reference | quoted | prose | codes | times | seq =>
    simp only [Phrase.verdictOne, Phrase.verdict, bind_assoc, pure_bind, Expr.anyOf]

/-- The same, where it stands for something. -/
theorem Derives.resolve_eq {n : Nonterminal} (h : Derives n p u) (hn : n ≠ .alternation) :
    p.resolve scope depth = (p.expr? scope depth).map (·, []) := by
  refine Option.ext fun r => ?_
  rw [← Phrase.verdict_eq_ok, h.verdict_eq hn]
  simp only [Except.bind_eq_ok, Except.pure_eq_ok, Phrase.verdictOne_eq_ok, Option.map_eq_some_iff]

/-- A concatenation as an alternative. -/
theorem outcome_concatenationAt (ih : ReadsAs scope .concatenation p u) (hrest : Stops rest) :
    outcome (concatenationAt scope depth (u ++ rest)) = do
      let expr ← p.verdictOne scope depth
      return (expr, skip rest) := by
  obtain ⟨m, hm, hread⟩ := ih depth _ rest hrest.boundary (Nat.lt_succ_self _)
  cases m with
  | zero => exact absurd hm (Nat.not_lt_zero _)
  | succ m =>
    unfold concatenationAt
    simp only [hread, continueFrom_stops hrest]
    rfl

/-- An alternation of one concatenation ends before what is no slash. -/
theorem ReadsAs.only (hp : Derives .concatenation p u) (ih : ReadsAs scope .concatenation p u) :
    ReadsAs scope .alternation p u := by
  intro depth n rest hrest hn
  have hstop := readAlternatives_stop (n := n) (concatenationAt scope depth) hrest.2
  unfold alternativesFrom
  simp only [outcome_bind, outcome_pure, outcome_concatenationAt ih hrest.1, hp.verdict_eq nofun,
    bind_assoc, pure_bind, skip_skip, hstop]
  rfl

/-- Behind a slash the other alternatives are read. -/
theorem ReadsAs.alt (hp : Derives .concatenation p u) (hw : Blanks w) (hx : Blanks x)
    (hq : Derives .alternation q v) (ihp : ReadsAs scope .concatenation p u)
    (ihq : ReadsAs scope .alternation q v) :
    ReadsAs scope .alternation (.alt p q) (u ++ (w ++ '/' :: (x ++ v))) := by
  intro depth n rest hrest hn
  -- the slash ends the first alternative and lets the others follow
  have hstops : Stops (w ++ '/' :: (x ++ (v ++ rest))) := hw.stops rfl (by decide)
  have hskip : skip (skip (w ++ '/' :: (x ++ (v ++ rest)))) = '/' :: (x ++ (v ++ rest)) := by
    rw [skip_skip, hw.skip_append, skip_of_blank?_eq_none rfl]
  have hrest' : skip (x ++ (v ++ rest)) = v ++ rest := by
    rw [hx.skip_append, hq.skip_append]
  simp only [List.length_append, List.length_cons] at hn
  cases n with
  | zero => omega
  | succ n =>
    have hmore : outcome (readAlternatives (concatenationAt scope depth) (n + 1)
        ('/' :: (x ++ (v ++ rest)))) = do
          let r ← q.verdict scope depth
          return (r.1 :: r.2, skip rest) := by
      rw [readAlternatives_slash, hrest']
      simp only [outcome_bind, outcome_pure, ihq depth n rest hrest (by omega), bind_assoc,
        pure_bind]
    simp only [List.append_assoc, List.cons_append]
    unfold alternativesFrom
    simp only [outcome_bind, outcome_pure, outcome_concatenationAt ihp hstops, hskip, hmore,
      Phrase.verdict, hp.verdict_eq (fun h => by cases h), bind_assoc, pure_bind, Expr.anyOf]

/-- Whatever derivation a text has, it is read as what its phrase stands for. -/
theorem Derives.readsAs {n : Nonterminal} (h : Derives n p u) : ReadsAs scope n p u := by
  induction h with
  | reference hname => exact .reference hname
  | group hv hp hw ih => exact .group hv hp ih hw
  | option hv hp hw ih => exact .option hv hp ih hw
  | quoted htext => exact .quoted htext
  | codes hnumbers => exact .codes hnumbers
  | prose htext => exact .prose htext
  | once hp ih => exact .once hp ih
  | times hbounds hp ih => exact .times hbounds hp ih
  | single hp ih => exact .single hp ih
  | seq _ hb hw hq ihp ihq => exact .seq hb hw hq ihp ihq
  | only hp ih => exact .only hp ih
  | alt hp hw hx hq ihp ihq => exact .alt hp hw hx hq ihp ihq

/-- An alternation and the white space behind it. -/
theorem outcome_readAlternation (h : Derives .alternation p u) (hrest : Closed rest) :
    outcome (readAlternation scope (depth + 1) (u ++ rest)) = do
      let expr ← p.verdictOne scope depth
      return (expr, skip rest) := by
  have hlength : u.length ≤ (u ++ rest).length := by simp
  rw [readAlternation_succ]
  simp only [outcome_bind, outcome_pure, h.readsAs depth _ rest hrest hlength, Phrase.verdictOne,
    bind_assoc, pure_bind]

end Abnf.Grammar
