import Abnf.Proofs.Grammar.Caseless
import Abnf.Proofs.Grammar.Expansion
import Abnf.Proofs.Grammar.LaterLines
import Abnf.Proofs.Grammar.Places

/-!
# Lines that are reached

The reader goes from line to line until one is refused. Which lines it gets to is a question about
the lines before alone (`Arrives`), and from a line that it gets to it goes on as if the text had
started there with what is defined by then (`Arrives.exists_readLines`). So a line that is refused
on its own is what the text is refused for. One that starts with a name that was given to the
grammar is such a line, in whatever case the name is written and whatever follows it
(`Arrives.read_reserved`).

What is defined changes at the end of a line, so what there is at the start of a line and behind it
is what there is at any point of a reading (`ReadsTo`), one that is refused later on included. It is
what the lines up to that point define, however they are derived (`ReadsTo.of_ended`).
-/

namespace Abnf.Grammar

open Text Token

variable {given : Rules} {scope scope' : Scope} {text cs rest left written after : List Char}

theorem ruleName_of_lowerCase (h : RuleName (lowerCase written)) : RuleName written := by
  generalize hlower : lowerCase written = lower at h
  obtain ⟨hc, hmore⟩ := h
  obtain ⟨c, more, rfl, rfl, rfl⟩ := List.map_eq_cons_iff.mp hlower
  rw [caseless_isLetter] at hc
  refine .mk hc fun d hd => ?_
  have := hmore _ (List.mem_map_of_mem hd)
  rwa [caseless_isNameChar] at this

variable [Interpreter]

/-- The reader comes to the start of a line, with what is defined by then. -/
inductive Arrives (given : Rules) (text : List Char) : Scope → List Char → Prop
  | start : Arrives given text { given := given } text
  | next {scope scope' : Scope} {cs rest left : List Char} {defined : Bool} :
      Arrives given text scope cs → readLine scope cs = .ok ((scope', defined), rest) →
      lineEnd? rest = some left → Arrives given text scope' left

/-- What is given stays what it is. -/
theorem given_readDefinition {name : Name} (h : readDefinition scope name cs = .ok (scope', rest)) :
    scope'.given = scope.given := by
  unfold readDefinition at h
  split at h
  · cases h
  · split at h
    · cases h
    · obtain ⟨_, -, h⟩ := Except.bind_eq_ok.mp h
      cases h
      rfl
    · split at h
      · cases h
      · obtain ⟨_, -, h⟩ := Except.bind_eq_ok.mp h
        cases h
        rfl

theorem given_readLine {defined : Bool} (h : readLine scope cs = .ok ((scope', defined), rest)) :
    scope'.given = scope.given := by
  unfold readLine at h
  split at h
  · cases h
    rfl
  · obtain ⟨⟨next, _⟩, hread, h⟩ := Except.bind_eq_ok.mp h
    cases h
    exact given_readDefinition hread

namespace Arrives

theorem given_eq (h : Arrives given text scope cs) : scope.given = given := by
  induction h with
  | start => rfl
  | next _ hline _ ih => rw [given_readLine hline, ih]

/-- What is read of a text is read from any line of it that the reader comes to. -/
theorem exists_readLines (h : Arrives given text scope cs) : ∃ n, cs.length < n ∧
    readLines (text.length + 1) { given := given } text = readLines n scope cs := by
  induction h with
  | start => exact ⟨_, Nat.lt_succ_self _, rfl⟩
  | @next scope scope' cs rest left defined _ hline hend ih =>
    obtain ⟨n, hn, hread⟩ := ih
    obtain ⟨n, rfl⟩ := Nat.exists_eq_succ_of_ne_zero (Nat.ne_zero_of_lt hn)
    -- the step is paid for by the line end, which is at least one character
    have hle : rest.length ≤ cs.length := length_readLine_le hline
    obtain ⟨nl, hnl, rfl⟩ := exists_of_lineEnd? hend
    have hpos : 0 < nl.length := by cases hnl <;> decide
    rw [List.length_append] at hle
    refine ⟨n, by omega, ?_⟩
    have hne : (nl ++ left).isEmpty = false := by
      rw [List.isEmpty_eq_false_iff, ← List.length_pos_iff, List.length_append]
      omega
    rw [hread, readLines, hline]
    simp only [bind, Except.bind, hne, Bool.false_eq_true, if_false, hend]

end Arrives

/-! ## Names that are given -/

theorem readLine_reserved {name : Name} (hname : name? cs = some (name, after))
    (hreserved : scope.isReserved name = true) :
    readLine scope cs = .error ⟨.reservedName name, after.length⟩ := by
  simp only [readLine, hname, readDefinition, hreserved, if_true]
  rfl

/-- A text is refused for a line that starts with a name that is given, if the reader gets there. -/
theorem Arrives.read_reserved (h : Arrives given text scope (written ++ after))
    (hname : RuleName (lowerCase written)) (hgiven : (given.find? (lowerCase written)).isSome)
    (hafter : ∀ c ∈ after.head?, ¬ isNameChar c) :
    read given text =
      .error ⟨.reservedName (lowerCase written), text.length - after.length⟩ := by
  obtain ⟨n, hn, hread⟩ := h.exists_readLines
  obtain ⟨n, rfl⟩ := Nat.exists_eq_succ_of_ne_zero (Nat.ne_zero_of_lt hn)
  have hreserved : scope.isReserved (lowerCase written) = true := by
    rw [Scope.isReserved, h.given_eq, hgiven, Bool.or_true]
  -- the name is looked at before anything that follows it
  have hline := readLine_reserved ((ruleName_of_lowerCase hname).name?_append hafter) hreserved
  unfold read
  rw [hread, readLines, hline]
  rfl

/-! ## What has been read -/

/-- The reader has come to the start of a line, or behind a line, with what is defined by then. -/
inductive ReadsTo (given : Rules) (text : List Char) : Scope → List Char → Prop
  | start {scope : Scope} {cs : List Char} : Arrives given text scope cs →
      ReadsTo given text scope cs
  | behind {scope scope' : Scope} {cs rest : List Char} {defined : Bool} :
      Arrives given text scope cs → readLine scope cs = .ok ((scope', defined), rest) →
      ReadsTo given text scope' rest

/-- Up to the start of a line stand lines, and what is defined is what they define. -/
theorem Arrives.exists_lines (h : Arrives given text scope cs) : ∃ ds before, Lines ds before ∧
    text = before ++ cs ∧ ({ given := given } : Scope).addAll? ds = some scope := by
  induction h with
  | start => exact ⟨[], [], .nil, rfl, rfl⟩
  | @next scope scope' cs rest left defined _ hline hend ih =>
    obtain ⟨ds, before, hlines, rfl, hadd⟩ := ih
    obtain ⟨es, u, -, hpiece, rfl, hadd'⟩ := exists_piece hline
    obtain ⟨nl, hnl, rfl⟩ := exists_of_lineEnd? hend
    refine ⟨ds ++ es, before ++ (u ++ nl), hlines.append (hpiece nl hnl), ?_, ?_⟩
    · simp only [List.append_assoc]
    · rw [Scope.addAll?_append, hadd]
      exact hadd'

theorem ReadsTo.exists_ended (h : ReadsTo given text scope rest) : ∃ ds passed, Ended ds passed ∧
    text = passed ++ rest ∧ ({ given := given } : Scope).addAll? ds = some scope := by
  cases h with
  | start harrives =>
    obtain ⟨ds, before, hlines, htext, hadd⟩ := harrives.exists_lines
    have hended := hlines.append_ended (.blank .nil .nothing)
    rw [List.append_nil, List.nil_append, List.append_nil] at hended
    exact ⟨ds, before, hended, htext, hadd⟩
  | behind harrives hline =>
    obtain ⟨ds, before, hlines, rfl, hadd⟩ := harrives.exists_lines
    obtain ⟨es, u, hended, -, rfl, hadd'⟩ := exists_piece hline
    refine ⟨ds ++ es, before ++ u, hlines.append_ended hended, (List.append_assoc ..).symm, ?_⟩
    rw [Scope.addAll?_append, hadd]
    exact hadd'

/-- However the lines that have been read are derived, what is defined is what they define. -/
theorem ReadsTo.of_ended (h : ReadsTo given text scope rest) : ∃ passed, text = passed ++ rest ∧
    (∃ ds, Ended ds passed) ∧
      ∀ ds, Ended ds passed → ({ given := given } : Scope).addAll? ds = some scope := by
  obtain ⟨ds, passed, hds, htext, hadd⟩ := h.exists_ended
  refine ⟨passed, htext, ⟨ds, hds⟩, fun es hes => ?_⟩
  -- the text that has been read can be read alone, and that in one way only
  have hread : read given passed = .ok scope.defined :=
    (read_eq_ok_iff_of_ended hds).mpr ⟨scope, hadd, rfl⟩
  obtain ⟨other, hother, hdefined⟩ := (read_eq_ok_iff_of_ended hes).mp hread
  have hgiven : other.given = scope.given :=
    (Scope.given_addAll? hother).trans (Scope.given_addAll? hadd).symm
  obtain ⟨_, _⟩ := other
  cases hgiven
  cases hdefined
  exact hother

end Abnf.Grammar
