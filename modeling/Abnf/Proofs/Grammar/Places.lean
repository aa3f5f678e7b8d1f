import Abnf.Proofs.Grammar.Refusal
import Abnf.Proofs.Text.Location

/-!
# Where faults are found

A reader that gives up says how many characters were left to it, and the position that is reported
is how many were not. That is a position of the text because no reader ever has more characters left
than it was given: one that comes to an end leaves the end of its text, and so the next one starts
with no more (`FailsWithin.bind`).
-/

namespace Abnf

open Grammar

namespace Grammar

open Token

variable {α β : Type} {scope : Scope} {n m depth : Nat} {cs rest left text : List Char}

/-- A step that fails does so with at most so many characters left. -/
structure FailsWithin (n : Nat) (x : Except Fault α) : Prop where
  left_le : ∀ fault, x = .error fault → fault.left ≤ n

namespace FailsWithin

theorem ok (a : α) : FailsWithin n (.ok a) := ⟨nofun⟩

theorem refuse {cause : Cause} (h : left.length ≤ n) :
    FailsWithin n (Grammar.refuse cause left : Except Fault α) := by
  constructor
  rintro _ ⟨⟩
  exact h

theorem bind {x : Except Fault α} {f : α → Except Fault β} (hx : FailsWithin n x)
    (hf : ∀ a, x = .ok a → FailsWithin n (f a)) : FailsWithin n (x >>= f) := by
  refine ⟨fun fault h => ?_⟩
  rcases Except.bind_eq_error.mp h with h | ⟨a, ha, h⟩
  · exact hx.left_le fault h
  · exact (hf a ha).left_le fault h

theorem mono {x : Except Fault α} (h : FailsWithin n x) (hle : n ≤ m) : FailsWithin m x :=
  ⟨fun fault hfault => (h.left_le fault hfault).trans hle⟩

end FailsWithin

/-! ## What is left -/

theorem length_skip_le (cs : List Char) : (skip cs).length ≤ cs.length := by
  obtain ⟨w, -, hcs⟩ := exists_blanks_skip cs
  exact List.IsSuffix.length_le ⟨w, hcs.symm⟩

theorem length_skip?_le (h : skip? cs = some rest) : rest.length ≤ cs.length := by
  obtain ⟨rfl, -⟩ := exists_of_skip? h
  exact length_skip_le cs

theorem BeginsWith.length_le {k : Nonterminal} (h : BeginsWith k cs rest) :
    rest.length ≤ cs.length := by
  obtain ⟨p, u, w, -, -, rfl⟩ := h
  exact ((List.suffix_append w rest).trans (List.suffix_append u _)).length_le

theorem length_readRepeat_le {times : Option Repeat} (h : readRepeat cs = .ok (times, rest)) :
    rest.length ≤ cs.length := by
  unfold readRepeat at h
  split at h
  · cases h
    exact Nat.le_refl _
  · rename_i hbounds
    simp only [Except.bind_eq_ok, Except.pure_eq_ok] at h
    obtain ⟨_, -, heq⟩ := h
    cases heq
    obtain ⟨u, -, rfl⟩ := exists_of_bounds? hbounds
    exact (List.suffix_append u rest).length_le

/-! ## Tokens -/

theorem decimalAt_failsWithin (digits left : List Char) :
    FailsWithin left.length (decimalAt digits left) := by
  unfold decimalAt
  split
  · exact .ok _
  · exact .refuse (Nat.le_refl _)

theorem valueAt_failsWithin (base : Base) (digits left : List Char) :
    FailsWithin left.length (valueAt base digits left) := by
  unfold valueAt
  split
  · exact .ok _
  · exact .refuse (Nat.le_refl _)

theorem checkCode_failsWithin (code : Nat) (left : List Char) :
    FailsWithin left.length (checkCode code left) := by
  unfold checkCode
  split
  · exact .refuse (Nat.le_refl _)
  · exact .ok _

theorem codesAt_failsWithin (base : Base) (left : List Char) (row : List (List Char)) :
    FailsWithin left.length (codesAt base left row) := by
  induction row with
  | nil => exact .ok _
  | cons digits more ih =>
    refine .bind (valueAt_failsWithin ..) fun _ _ => ?_
    refine .bind (checkCode_failsWithin ..) fun _ _ => ?_
    exact .bind ih fun _ _ => .ok _

theorem resolveBounds_failsWithin (bounds : Bounds) (left : List Char) :
    FailsWithin left.length (resolveBounds bounds left) := by
  unfold resolveBounds
  split
  · exact .bind (decimalAt_failsWithin ..) fun _ _ => .ok _
  · exact .ok _
  · exact .bind (decimalAt_failsWithin ..) fun _ _ => .ok _
  · exact .bind (decimalAt_failsWithin ..) fun _ _ => .ok _
  · refine .bind (decimalAt_failsWithin ..) fun _ _ => ?_
    refine .bind (decimalAt_failsWithin ..) fun _ _ => ?_
    split
    · exact .refuse (Nat.le_refl _)
    · exact .ok _

theorem resolveNumbers_failsWithin (numbers : Numbers) (left : List Char) :
    FailsWithin left.length (resolveNumbers numbers left) := by
  cases numbers with
  | row base first more => exact .bind (codesAt_failsWithin ..) fun _ _ => .ok _
  | range base first last =>
    refine .bind (valueAt_failsWithin ..) fun _ _ => ?_
    refine .bind (valueAt_failsWithin ..) fun _ _ => ?_
    split
    · exact .refuse (Nat.le_refl _)
    · refine .bind (checkCode_failsWithin ..) fun _ _ => ?_
      exact .bind (checkCode_failsWithin ..) fun _ _ => .ok _

theorem resolveName_failsWithin (scope : Scope) (name : Name) (left : List Char) :
    FailsWithin left.length (resolveName scope name left) := by
  unfold resolveName
  split
  · exact .ok _
  · exact .refuse (Nat.le_refl _)

theorem readRepeat_failsWithin (cs : List Char) : FailsWithin cs.length (readRepeat cs) := by
  unfold readRepeat
  split
  · exact .ok _
  · rename_i bounds rest hbounds
    obtain ⟨u, -, rfl⟩ := exists_of_bounds? hbounds
    refine .bind ((resolveBounds_failsWithin bounds rest).mono ?_) fun _ _ => .ok _
    exact (List.suffix_append u rest).length_le

/-! ## Groups -/

section

variable {body : List Char → Except Fault (Expr × List Char)}
  (hbody : ∀ cs, FailsWithin cs.length (body cs))
  (hsound : ∀ cs expr rest, body cs = .ok (expr, rest) → BeginsWith .alternation cs rest)

include hbody hsound

theorem readGroup_failsWithin (closing : Char) (expected : Expected) (cs : List Char) :
    FailsWithin cs.length (readGroup body closing expected cs) := by
  refine .bind ((hbody _).mono (length_skip_le cs)) fun ⟨expr, rest⟩ hread => ?_
  have hle : (skip rest).length ≤ cs.length :=
    ((hsound _ _ _ hread).skip.length_le).trans (length_skip_le cs)
  dsimp only
  split
  · rename_i hskip
    split
    · exact .ok _
    · exact .refuse (hskip ▸ hle)
  · exact .refuse (Nat.zero_le _)

theorem readElement_failsWithin (scope : Scope) (cs : List Char) :
    FailsWithin cs.length (readElement scope body cs) := by
  have hgroup (c closing : Char) (expected : Expected) (rest : List Char) :
      FailsWithin (c :: rest).length (readGroup body closing expected rest) :=
    (readGroup_failsWithin hbody hsound closing expected rest).mono
      (List.suffix_cons c rest).length_le
  unfold readElement
  split
  · exact .bind (hgroup ..) fun _ _ => .ok _
  · exact .bind (hgroup ..) fun _ _ => .ok _
  · exact .ok _
  · exact .ok _
  · split
    · rename_i hnumbers
      obtain ⟨u, -, rfl⟩ := exists_of_numbers? hnumbers
      refine .bind ((resolveNumbers_failsWithin ..).mono ?_) fun _ _ => .ok _
      exact ((List.suffix_append u _).trans (List.suffix_cons '%' _)).length_le
    · exact .ok _
  · split
    · rename_i hname
      obtain ⟨u, -, rfl, -⟩ := exists_of_name? hname
      refine .bind ((resolveName_failsWithin ..).mono ?_) fun _ _ => .ok _
      exact (List.suffix_append u _).length_le
    · exact .ok _

end

/-! ## Loops -/

theorem readConcatenation_failsWithin
    {element : List Char → Except Fault (Option (Expr × List Char))}
    (helement : ∀ cs, FailsWithin cs.length (element cs))
    (hsound : ∀ cs expr rest, element cs = .ok (some (expr, rest)) →
      ∃ p u, Derives .element p u ∧ cs = u ++ rest)
    (n : Nat) (before : Option Expr) (cs : List Char) :
    FailsWithin cs.length (readConcatenation element n before cs) := by
  -- each round starts with what the rounds before have left, which is never more
  induction n generalizing before cs with
  | zero => exact .refuse (Nat.le_refl _)
  | succ n ih =>
    refine .bind (readRepeat_failsWithin cs) fun ⟨times, mid⟩ hrepeat => ?_
    have hmid := length_readRepeat_le hrepeat
    refine .bind ((helement mid).mono hmid) fun taken htaken => ?_
    dsimp only
    split
    · split
      · exact .ok _
      · exact .refuse hmid
    · rename_i expr rest
      obtain ⟨p, u, -, rfl⟩ := hsound _ _ _ htaken
      have hrest := (List.suffix_append u rest).length_le
      split
      · exact .ok _
      · rename_i hskip
        exact (ih _ _).mono ((length_skip?_le hskip).trans (hrest.trans hmid))

theorem readAlternatives_failsWithin {concatenation : List Char → Except Fault (Expr × List Char)}
    (hconcatenation : ∀ cs, FailsWithin cs.length (concatenation cs))
    (hsound : ∀ cs expr rest, concatenation cs = .ok (expr, rest) →
      BeginsWith .concatenation cs rest) (n : Nat) (cs : List Char) :
    FailsWithin cs.length (readAlternatives concatenation n cs) := by
  fun_induction readAlternatives concatenation n cs with
  | case1 n cs ih =>
    have hcs : (skip cs).length ≤ ('/' :: cs).length :=
      (length_skip_le cs).trans (List.suffix_cons '/' cs).length_le
    refine .bind ((hconcatenation _).mono hcs) fun read hread => ?_
    have hrest := (hsound _ _ _ hread).skip.length_le
    exact .bind ((ih read.2).mono (hrest.trans hcs)) fun _ _ => .ok _
  | case2 => exact .ok _

theorem readAlternation_failsWithin (scope : Scope) (depth : Nat) (cs : List Char) :
    FailsWithin cs.length (readAlternation scope depth cs) := by
  induction depth generalizing cs with
  | zero => exact .refuse (Nat.le_refl _)
  | succ depth ih =>
    have helement : ∀ cs, FailsWithin cs.length (elementAt scope depth cs) :=
      readElement_failsWithin ih (readAlternation_sound depth) scope
    have hconcatenation (cs : List Char) : FailsWithin cs.length (concatenationAt scope depth cs) :=
      readConcatenation_failsWithin helement (elementAt_sound depth) _ none cs
    refine .bind (hconcatenation cs) fun ⟨first, rest⟩ hread => ?_
    have hsound : ∀ cs expr rest, concatenationAt scope depth cs = .ok (expr, rest) →
        BeginsWith .concatenation cs rest := concatenationAt_sound depth
    have hrest := (hsound _ _ _ hread).skip.length_le
    refine .bind ((readAlternatives_failsWithin hconcatenation hsound _ _).mono hrest) ?_
    exact fun _ _ => .ok _

/-! ## Lines -/

theorem readDefinition_failsWithin [Interpreter] (scope : Scope) (name : Name) (cs : List Char) :
    FailsWithin cs.length (readDefinition scope name cs) := by
  -- the position of a fault lies behind the white space, the sign and the body that came before it
  have hsign {adds : Bool} {rest : List Char} (h : definedAs? (skip cs) = some (adds, rest)) :
      rest.length ≤ cs.length := by
    refine Nat.le_trans ?_ (length_skip_le cs)
    rw [exists_of_definedAs? h]
    exact (List.suffix_append _ rest).length_le
  have hbody {rest : List Char} (h : rest.length ≤ cs.length) :
      FailsWithin cs.length (readAlternation scope depthLimit (skip rest)) :=
    (readAlternation_failsWithin ..).mono ((length_skip_le rest).trans h)
  unfold readDefinition
  split
  · exact .refuse (Nat.le_refl _)
  · split
    · exact .refuse (length_skip_le cs)
    · rename_i h
      exact .bind (hbody (hsign h)) fun _ _ => .ok _
    · rename_i h
      split
      · exact .refuse (hsign h)
      · exact .bind (hbody (hsign h)) fun _ _ => .ok _

theorem readLine_failsWithin [Interpreter] (scope : Scope) (cs : List Char) :
    FailsWithin cs.length (readLine scope cs) := by
  unfold readLine
  split
  · exact .ok _
  · rename_i hname
    obtain ⟨u, -, rfl, -⟩ := exists_of_name? hname
    refine .bind ((readDefinition_failsWithin ..).mono ?_) fun _ _ => .ok _
    exact (List.suffix_append u _).length_le

theorem length_readLine_le [Interpreter] {x : (Scope × Bool) × List Char}
    (h : readLine scope cs = .ok x) :
    x.2.length ≤ cs.length := by
  obtain ⟨_, u, -, -, rfl, -⟩ := exists_piece h
  exact (List.suffix_append u x.2).length_le

theorem readLines_failsWithin [Interpreter] (n : Nat) (scope : Scope) (cs : List Char) :
    FailsWithin cs.length (readLines n scope cs) := by
  induction n generalizing scope cs with
  | zero => exact .refuse (Nat.le_refl _)
  | succ n ih =>
    refine .bind (readLine_failsWithin scope cs) fun ⟨⟨added, defined⟩, rest⟩ hread => ?_
    have hrest : rest.length ≤ cs.length := length_readLine_le hread
    dsimp only
    split
    · exact .ok _
    · split
      · rename_i hend
        -- the end of the line is left behind, so the next one starts with less
        obtain ⟨nl, -, rfl⟩ := exists_of_lineEnd? hend
        exact (ih _ _).mono ((List.suffix_append nl _).length_le.trans hrest)
      · exact .refuse hrest

/-- A text is refused where the reader stands, and that is a position of it. -/
theorem exists_position_of_read [Interpreter] {given : Rules} {e : Error}
    (h : read given text = .error e) :
    ∃ fault, readLines (text.length + 1) { given := given } text = .error fault ∧
      e.cause = fault.cause ∧ e.position + fault.left = text.length := by
  obtain ⟨fault, hread, rfl⟩ := exists_fault_of_read h
  have hle := (readLines_failsWithin ..).left_le fault hread
  exact ⟨fault, hread, rfl, Nat.sub_add_cancel hle⟩

end Grammar

/--
Where a source without gaps is refused with a place, the place is one of the text that it is
assembled to: as many characters were left to the reader as stand behind it. The line and column in
the message are the only ones that the lines of the text have there.
-/
theorem compileText_location [Interpreter] {source : List Char} {error : CompileError}
    (hgaps : (Template.ofText source).tail = []) (h : compileText source = .error error) :
    ∃ text e, text = Text.strip (Text.dedent source) ∧ error = .grammar text e ∧
      (e.cause.kind ∈ locatedKinds → ∃ position fault here,
        e.position? = some position ∧ position ≤ text.length ∧
        readLines (text.length + 1) {} text = .error fault ∧
        position + fault.left = text.length ∧
        e.message text = e.cause.message ++ (" (line " ++ toString here.line ++ ", column " ++
          toString here.column ++ ")") ∧
        ∀ other, Text.Location.Marks text position other ↔ other = here) := by
  rw [compileText_eq hgaps, Except.mapError_eq_error] at h
  obtain ⟨e, hread, rfl⟩ := h
  refine ⟨_, e, rfl, rfl, fun hkind => ?_⟩
  obtain ⟨fault, hfault, -, hposition⟩ := exists_position_of_read hread
  have hle : e.position ≤ (Text.strip (Text.dedent source)).length := by omega
  have hlocated : e.position? = some e.position := by
    -- the faults without a place are the limits of the reader, which are of another kind
    rcases e.located_or_limit with ⟨-, hlocated⟩ | ⟨-, hcause | ⟨long, hcause⟩⟩
    · exact hlocated
    all_goals
      rw [hcause] at hkind
      exact absurd hkind (by simp [Cause.kind, locatedKinds])
  refine ⟨e.position, fault, _, hlocated, hle, hfault, hposition, ?_, fun other =>
    Text.Location.marks_iff hle⟩
  simp only [Error.message, hlocated, Text.Location.describe, String.append_assoc]
  rfl

/-- A group on the second line that is not closed. -/
theorem compileText_location_group :
    ∃ source : List Char, source = ['a', '=', 'B', 'I', 'T', '\n', 'b', '=', '(', 'a'] ∧
      (Template.ofText source).tail = [] ∧
      ∃ e, compileText source = .error (.grammar source e) ∧ e.cause.kind ∈ locatedKinds ∧
        e.message source = "Expected \")\". (line 2, column 5)" ∧
        ∀ other, Text.Location.Marks source 10 other ↔ other = ⟨2, 5⟩ := by
  have herror : compileText ['a', '=', 'B', 'I', 'T', '\n', 'b', '=', '(', 'a'] =
      .error (.grammar ['a', '=', 'B', 'I', 'T', '\n', 'b', '=', '(', 'a']
        ⟨.expected .closingParenthesis, 10⟩) := by decide +kernel
  have hgaps : (Template.ofText ['a', '=', 'B', 'I', 'T', '\n', 'b', '=', '(', 'a']).tail = [] := by
    decide
  obtain ⟨text, e, -, heq, hlocated⟩ := compileText_location hgaps herror
  obtain ⟨rfl, rfl⟩ := CompileError.grammar.inj heq
  obtain ⟨position, fault, here, hposition, -, -, -, -, hmarks⟩ := hlocated (by decide)
  obtain rfl : 10 = position := Option.some.inj hposition
  have hhere := (Text.Location.marks_iff (by decide)).mp ((hmarks here).mpr rfl)
  refine ⟨_, rfl, hgaps, _, herror, by decide, by decide +kernel, ?_⟩
  rw [show (⟨2, 5⟩ : Text.Location) = here from by rw [hhere]; decide]
  exact hmarks

end Abnf
