import Abnf.Proofs.Grammar.Acceptance
import Abnf.Proofs.Text.Margin

/-!
# How grammar text is refused

A text without gaps is compiled, or refused with a fault of one of five kinds whose line and column
are reported (`compileText_refusal`). Two faults are reported without a place, those of the two
limits. Groups nested too deeply are left out by hypothesis. The other one is a decimal numeral of
more than `Text.decimalLimit` digits, and it does occur: whatever the digits are, a repeat count
that is written with so many is refused without saying where (`compileText_longCount`).
-/

namespace Abnf

open Grammar

namespace Grammar

variable {given : Rules} {text : List Char} {e : Error}

/-- The kinds of faults that are reported with their place. -/
def locatedKinds : List Kind :=
  [.notWellFormed, .undefinedRule, .reservedName, .undefinedExtension, .invalidRange]

/-- Only the two limits are reported without a place. -/
theorem Error.located_or_limit (e : Error) :
    (e.cause.kind ∈ locatedKinds ∧ e.position? = some e.position) ∨
      (e.position? = none ∧
        (e.cause = .nestedTooDeeply ∨ ∃ long, e.cause = .numeralTooLong long)) := by
  unfold Error.position?
  cases e.cause with
  | nestedTooDeeply => exact .inr ⟨rfl, .inl rfl⟩
  | numeralTooLong long => exact .inr ⟨rfl, .inr ⟨long, rfl⟩⟩
  | expected | undefinedRule | reservedName | undefinedExtension | repeatOrder | rangeOrder
    | codeTooLarge => exact .inl ⟨by simp [Cause.kind, locatedKinds], rfl⟩

theorem exists_fault_of_read [Interpreter] (h : read given text = .error e) :
    ∃ fault, readLines (text.length + 1) { given := given } text = .error fault ∧
      e = ⟨fault.cause, text.length - fault.left⟩ := by
  unfold read at h
  split at h
  · cases h
  · rename_i fault hread
    cases h
    exact ⟨fault, hread, rfl⟩

/-- Where groups do not nest too deeply, a text is refused with a place or for a long numeral. -/
theorem read_refusal [Interpreter] (hnesting : nestingFrom 0 (marks text) < depthLimit)
    (h : read given text = .error e) :
    (e.cause.kind ∈ locatedKinds ∧ ∃ position ≤ text.length, e.position? = some position) ∨
      (e.position? = none ∧ e.cause.kind = .numeralTooLong ∧
        ∃ digits, .numeral digits ∈ marks text ∧ Text.decimalLimit < digits.length) := by
  obtain ⟨fault, hread, rfl⟩ := exists_fault_of_read h
  have hexceeds := readLines_exceeds _ hread
  rcases Error.located_or_limit ⟨fault.cause, text.length - fault.left⟩ with
    ⟨hkind, hposition⟩ | ⟨hposition, hcause | ⟨long, hcause⟩⟩
  · exact .inl ⟨hkind, _, Nat.sub_le .., hposition⟩
  · have := hexceeds.nesting hcause
    omega
  · have hnumeral := hexceeds.numeral long hcause
    simp only [NumeralsFit, Classical.not_forall, Nat.not_le] at hnumeral
    obtain ⟨digits, hmem, hlong⟩ := hnumeral
    exact .inr ⟨hposition, congrArg Cause.kind hcause, digits, hmem, hlong⟩

end Grammar

/--
A source without gaps whose groups do not nest too deeply is compiled, or refused with a fault of
one of five kinds at a position of its text, unless a decimal numeral in it has too many digits.
-/
theorem compileText_refusal [Interpreter] {source : List Char}
    (h : (Template.ofText source).tail = [])
    (hnesting : nestingFrom 0 (marks (Text.strip (Text.dedent source))) < depthLimit) :
    (∃ rules, compileText source = .ok rules) ∨
      ∃ e, compileText source = .error (.grammar (Text.strip (Text.dedent source)) e) ∧
        ((e.cause.kind ∈ locatedKinds ∧
            ∃ position ≤ (Text.strip (Text.dedent source)).length,
              e.position? = some position) ∨
          (e.position? = none ∧ e.cause.kind = .numeralTooLong ∧
            ∃ digits, .numeral digits ∈ marks (Text.strip (Text.dedent source)) ∧
              Text.decimalLimit < digits.length)) := by
  rw [compileText_eq h]
  cases hread : read [] (Text.strip (Text.dedent source)) with
  | ok rules => exact .inl ⟨rules, rfl⟩
  | error e => exact .inr ⟨e, rfl, read_refusal hnesting hread⟩

theorem compileText_refusal_reference :
    (Template.ofText ['a', '=', 'b']).tail = [] ∧
      nestingFrom 0 (marks ['a', '=', 'b']) < depthLimit ∧
      ∃ e, compileText ['a', '=', 'b'] = .error (.grammar ['a', '=', 'b'] e) ∧
        e.cause.kind ∈ locatedKinds ∧ ∃ position ≤ 3, e.position? = some position := by
  have hgaps : (Template.ofText ['a', '=', 'b']).tail = [] := by decide
  have htext : Text.strip (Text.dedent ['a', '=', 'b']) = ['a', '=', 'b'] := by decide
  have hmarks : marks ['a', '=', 'b'] = [] := by decide
  have hnesting : nestingFrom 0 (marks (Text.strip (Text.dedent ['a', '=', 'b']))) <
    depthLimit := by
    rw [htext, hmarks]
    decide
  have h := compileText_refusal hgaps hnesting
  rw [htext, hmarks] at h
  refine ⟨hgaps, htext ▸ hnesting, ?_⟩
  rcases h with ⟨rules, hok⟩ | ⟨e, herror, hlocated | ⟨-, -, digits, hdigits, -⟩⟩
  · cases hok
  · exact ⟨e, herror, hlocated⟩
  · cases hdigits

/-! ## A repeat count that is too long -/

namespace Grammar

open Token

variable {digits : List Char}

/-- A rule whose repeat count is written as a zero and digits. -/
def longCount (digits : List Char) : List Char := 'a' :: '=' :: '0' :: (digits ++ ['B', 'I', 'T'])

theorem bounds?_longCount (hdigits : ∀ c ∈ digits, Text.isAsciiDigit c) :
    bounds? ('0' :: (digits ++ ['B', 'I', 'T'])) =
      some (.exact ('0' :: digits), ['B', 'I', 'T']) :=
  have hcount : RepeatText (.exact ('0' :: digits)) ('0' :: digits) :=
    .exact ⟨nofun, List.forall_mem_cons.mpr ⟨by decide, hdigits⟩⟩
  hcount.bounds?_append (by rintro c ⟨⟩; decide) (by decide)

theorem marks_longCount (hdigits : ∀ c ∈ digits, Text.isAsciiDigit c) :
    marks (longCount digits) = [.numeral ('0' :: digits)] := by
  have hname : marks (longCount digits) = marks ('=' :: '0' :: (digits ++ ['B', 'I', 'T'])) :=
    marks_name rfl
  have hsign : marks ('=' :: '0' :: (digits ++ ['B', 'I', 'T'])) =
      marks ('0' :: (digits ++ ['B', 'I', 'T'])) := marks_cons (c := '=') rfl
  rw [hname, hsign, marks_bounds (bounds?_longCount hdigits)]
  rfl

theorem read_longCount [Interpreter] (hdigits : ∀ c ∈ digits, Text.isAsciiDigit c)
    (hlong : Text.decimalLimit ≤ digits.length) :
    read [] (longCount digits) =
      .error ⟨.numeralTooLong ⟨digits.length + 1⟩, digits.length + 3⟩ := by
  have hvalue : Text.decimalValue ('0' :: digits) = .error ⟨digits.length + 1⟩ :=
    if_neg (by rw [List.length_cons]; omega)
  have hrepeat : readRepeat ('0' :: (digits ++ ['B', 'I', 'T'])) =
      .error ⟨.numeralTooLong ⟨digits.length + 1⟩, 3⟩ := by
    rw [readRepeat, bounds?_longCount hdigits]
    simp only [resolveBounds, decimalAt, hvalue]
    rfl
  -- the numeral is the first thing that is read of the body, however deep it may be nested
  have hbody (depth : Nat) : readAlternation {} (depth + 1) ('0' :: (digits ++ ['B', 'I', 'T'])) =
      .error ⟨.numeralTooLong ⟨digits.length + 1⟩, 3⟩ := by
    simp only [readAlternation, readConcatenation, hrepeat]
    rfl
  have hline : readLine {} (longCount digits) =
      .error ⟨.numeralTooLong ⟨digits.length + 1⟩, 3⟩ := by
    change (readAlternation {} depthLimit ('0' :: (digits ++ ['B', 'I', 'T'])) >>= _) >>= _ = _
    rw [← Nat.sub_add_cancel depthLimit_pos, hbody]
    rfl
  unfold read
  rw [readLines, hline]
  simp [longCount, bind, Except.bind]

end Grammar

/-- Such a rule is refused, and where is not said. -/
theorem compileText_longCount [Interpreter] {digits : List Char}
    (hdigits : ∀ c ∈ digits, Text.isAsciiDigit c)
    (hlong : Text.decimalLimit ≤ digits.length) :
    (Template.ofText (longCount digits)).tail = [] ∧
      Text.strip (Text.dedent (longCount digits)) = longCount digits ∧
      compileText (longCount digits) = .error (.grammar (longCount digits)
        ⟨.numeralTooLong ⟨digits.length + 1⟩, digits.length + 3⟩) := by
  -- the digits are none of the characters that the outer layers look for
  have hmem {c : Char} (hc : ¬ Text.isAsciiDigit c) (hother : c ∉ longCount []) :
      c ∉ longCount digits := by
    have hdigit : c ∉ digits := fun h => hc (hdigits c h)
    simpa [longCount, hdigit] using hother
  have hfull : Text.StartsFull (longCount digits) := ⟨'a', rfl, by decide⟩
  have hdedent : Text.dedent (longCount digits) = longCount digits :=
    Text.dedent_of_not_mem hfull (hmem (by decide) (by decide))
  have hgaps : (Template.ofText (longCount digits)).tail = [] := by
    rw [Template.ofText, hdedent, Template.cut_of_not_mem (hmem (by decide) (by decide))]
  have hlast : (longCount digits).getLast? = some 'T' := by
    rw [show longCount digits = 'a' :: '=' :: '0' :: (digits ++ ['B', 'I']) ++ ['T'] by
      simp [longCount], List.getLast?_concat]
  have hstrip : Text.strip (longCount digits) = longCount digits := by
    rw [Text.strip_eq_trimEnd hfull.not_isSpace, Text.trimEnd_eq_self]
    rw [hlast]
    rintro c ⟨⟩
    decide
  refine ⟨hgaps, by rw [hdedent, hstrip], ?_⟩
  rw [compileText_eq hgaps, hdedent, hstrip, read_longCount hdigits hlong]
  rfl

theorem compileText_longCount_unlocated :
    ∃ e, (Template.ofText (longCount (List.replicate Text.decimalLimit '0'))).tail = [] ∧
      nestingFrom 0 (marks (longCount (List.replicate Text.decimalLimit '0'))) < depthLimit ∧
      compileText (longCount (List.replicate Text.decimalLimit '0')) =
        .error (.grammar (longCount (List.replicate Text.decimalLimit '0')) e) ∧
      e.cause.kind ∉ locatedKinds ∧ e.position? = none := by
  have hdigits : ∀ c ∈ List.replicate Text.decimalLimit '0', Text.isAsciiDigit c := fun c hc => by
    rw [List.eq_of_mem_replicate hc]
    decide
  have hlong := (@List.length_replicate _ Text.decimalLimit '0').ge
  -- what the digits are is of no further interest, and they are too many to compute with
  generalize List.replicate Text.decimalLimit '0' = digits at hdigits hlong
  obtain ⟨hgaps, -, herror⟩ := compileText_longCount hdigits hlong
  refine ⟨⟨.numeralTooLong ⟨digits.length + 1⟩, digits.length + 3⟩, hgaps, ?_, herror, ?_, rfl⟩
  · rw [marks_longCount hdigits]
    exact (by decide : 0 < depthLimit)
  · simp [Cause.kind, locatedKinds]

end Abnf
