import Abnf.Proofs.Cursor.Runs

/-!
# A pattern as many times as possible

The loop that tries a pattern again and again has no bound of its own. It goes on while a match ends
further on than it started, and whether that is so is not for the pattern to say: it may take
characters here and nothing there. What makes the loop end is the text. Each round leaves fewer
characters to come, so a bound on the rounds that is no smaller than their number cuts nothing
(`rounds_repeats`), and the places between the rounds are the one row of matches that starts at the
cursor and cannot be made longer (`repeatedly_row`).
-/

namespace Abnf.Cursor

open Regex Template

/-! ## The loop without a bound -/

/-- A match that ends where it started, or none. -/
def Stays (pattern : Pattern) (c : Cursor) : Prop :=
  ∀ found d, c.match? pattern = some (found, d) → d.position = c.position

/--
The loop: a pattern is tried, and tried again behind the match unless the cursor stayed. The matches
on the way are listed; the last try, which took nothing, is none of them.
-/
inductive Repeats (pattern : Pattern) : Cursor → List (List Char) → Cursor → Prop
  | stop {c : Cursor} (hstays : Stays pattern c) : Repeats pattern c [] c
  | again {c d e : Cursor} {found : Match} {taken : List (List Char)}
      (hmatch : c.match? pattern = some (found, d)) (hmoves : d.position ≠ c.position)
      (hrest : Repeats pattern d taken e) : Repeats pattern c (found.whole :: taken) e

variable {c d e : Cursor} {text : List Char} {pattern : Pattern} {p : PatternValue}
  {taken : List (List Char)} {first : Nat} {stops others : List Nat}

/-- What is tried for its end and what is tried for its groups end alike. -/
theorem behind?_eq (c : Cursor) (pattern : Pattern) :
    c.behind? pattern = (c.match? pattern).map Prod.snd := by
  rw [behind?, match?, Option.map_map]
  rfl

/-- **The loop ends.** A bound that leaves room for the characters to come cuts nothing off. -/
theorem rounds_repeats (pattern : Pattern) (n : Nat) (c : Cursor) (h : c.after.length ≤ n) :
    ∃ taken, Repeats pattern c taken (rounds pattern n c) := by
  -- a round that moves leaves a character less, which is one round less to be allowed
  induction n generalizing c with
  | zero =>
    refine ⟨[], .stop fun found d hmatch => ?_⟩
    have hadvances := match?_advances hmatch
    have hlength := congrArg List.length hadvances.after
    rw [List.length_append] at hlength
    rw [hadvances.position_eq]
    omega
  | succ n ih =>
    rw [rounds, behind?_eq]
    cases hmatch : c.match? pattern with
    | none => exact ⟨[], .stop fun found d h => by rw [hmatch] at h; cases h⟩
    | some ended =>
      obtain ⟨found, d⟩ := ended
      by_cases hmoves : d.position = c.position
      · simp only [Option.map_some, if_pos hmoves]
        refine ⟨[], .stop fun found' d' h' => ?_⟩
        rw [hmatch] at h'
        cases h'
        exact hmoves
      · simp only [Option.map_some, if_neg hmoves]
        have hadvances := match?_advances hmatch
        have hposition := hadvances.position_eq
        have hlength := congrArg List.length hadvances.after
        rw [List.length_append] at hlength
        obtain ⟨taken, hrest⟩ := ih d (by omega)
        exact ⟨_, .again hmatch hmoves hrest⟩

theorem Repeats.advances (h : Repeats pattern c taken e) : Advances taken.flatten c e := by
  induction h with
  | stop => exact .refl _
  | again hmatch _ _ ih => exact (match?_advances hmatch).trans ih

/-- The loop took nothing if and only if it made no round. -/
theorem Repeats.position_eq_iff (h : Repeats pattern c taken e) :
    e.position = c.position ↔ taken = [] := by
  cases h with
  | stop => exact ⟨fun _ => rfl, fun _ => rfl⟩
  | again hmatch hmoves hrest =>
    have hfirst := (match?_advances hmatch).position_eq
    have hlater := hrest.advances.position_eq
    refine ⟨fun hsame => absurd ?_ hmoves, fun hnil => absurd hnil (List.cons_ne_nil _ _)⟩
    omega

/-- What the bounded loop answers is what the loop without a bound takes. -/
theorem exists_repeats (pattern : Pattern) (c : Cursor) :
    ∃ taken e, Repeats pattern c taken e ∧
      c.repeatedly? pattern = if taken = [] then none else some (taken.flatten, e) := by
  obtain ⟨taken, hrepeats⟩ := rounds_repeats pattern c.after.length c le_rfl
  refine ⟨taken, _, hrepeats, ?_⟩
  rw [repeatedly?]
  simp only [hrepeats.position_eq_iff, hrepeats.advances.upTo_eq]

/-- The answer to a request for a pattern repeatedly, and where it leaves the cursor. -/
theorem ask?_repeatedly (p : PatternValue) (c : Cursor) :
    ∃ taken e, Repeats p.pattern c taken e ∧ c.after? .repeatedly (.pattern p) = e ∧
      c.ask? .repeatedly (.pattern p) =
        .ok (if taken = [] then none else some (.text taken.flatten, e)) := by
  obtain ⟨taken, e, hrepeats, hanswer⟩ := exists_repeats p.pattern c
  have hask : c.ask? .repeatedly (.pattern p) =
      .ok ((c.repeatedly? p.pattern).map fun taken => (.text taken.1, taken.2)) := rfl
  refine ⟨taken, e, hrepeats, ?_, ?_⟩
  · rw [after?, hask, hanswer]
    cases hrepeats <;> rfl
  · rw [hask, hanswer]
    split <;> rfl

/-! ## Rows of matches -/

/-- Where a match of a pattern ends that is asked for at a position of a text. -/
def matchEnd? (text : List Char) (p : PatternValue) (position : Nat) : Option Nat :=
  match ofData (.text text) (.int position) with
  | .ok c =>
    match c.ask? .pattern (.pattern p) with
    | .ok (some (_, d)) => some d.position
    | _ => none
  | .error _ => none

/--
The ends of a row of matches: the first match is asked for at `first`, each further one where the
one before it ended, each takes something, and one more would take nothing.
-/
structure IsRow (text : List Char) (p : PatternValue) (first : Nat) (stops : List Nat) :
    Prop where
  chain : (first :: stops).IsChain fun i j => i < j ∧ matchEnd? text p i = some j
  last : ∀ j, matchEnd? text p (stops.getLastD first) = some j → j = stops.getLastD first

/-- A text and a position give one cursor. -/
theorem ofData_text_position (c : Cursor) : ofData (.text c.text) (.int c.position) = .ok c := by
  obtain ⟨d, hd, htext, hposition⟩ := exists_ofData c.position_le_length
  have hlength : d.before.reverse.length = c.before.reverse.length := by
    rw [List.length_reverse, List.length_reverse]
    exact hposition
  obtain ⟨hbefore, hafter⟩ := List.append_inj htext hlength
  have hcursor : d = c := by
    cases c
    cases d
    exact congrArg₂ Cursor.mk (List.reverse_injective hbefore) hafter
  rw [hd, hcursor]

theorem matchEnd?_position (c : Cursor) (p : PatternValue) :
    matchEnd? c.text p c.position = (c.match? p.pattern).map fun ended => ended.2.position := by
  rw [matchEnd?, ofData_text_position]
  cases hmatch : c.match? p.pattern <;>
    simp [ask?, requirePattern, hmatch, bind, Except.bind, pure, Except.pure]

/-- A row cannot be made in two ways. -/
theorem IsRow.unique (h : IsRow text p first stops) (h' : IsRow text p first others) :
    others = stops := by
  -- a stop is where the match from the stop before ends, so it is the same in both rows, and a row
  -- goes on as long as a match can be found that is not empty
  induction stops generalizing first others with
  | nil =>
    cases others with
    | nil => rfl
    | cons j others =>
      obtain ⟨⟨hlt, hend⟩, -⟩ := List.isChain_cons_cons.mp h'.chain
      exact absurd (h.last j hend) (Nat.ne_of_gt hlt)
  | cons i stops ih =>
    obtain ⟨⟨hlt, hend⟩, hchain⟩ := List.isChain_cons_cons.mp h.chain
    cases others with
    | nil => exact absurd (h'.last i hend) (Nat.ne_of_gt hlt)
    | cons j others =>
      obtain ⟨⟨-, hend'⟩, hchain'⟩ := List.isChain_cons_cons.mp h'.chain
      obtain rfl : i = j := Option.some.inj (hend.symm.trans hend')
      have hrest : IsRow text p i stops := ⟨hchain, by simpa only [List.getLastD_cons] using h.last⟩
      have hrest' : IsRow text p i others :=
        ⟨hchain', by simpa only [List.getLastD_cons] using h'.last⟩
      rw [ih hrest hrest']

/-- The rounds of the loop are the matches of a row. -/
theorem Repeats.exists_isRow (h : Repeats p.pattern c taken e) :
    ∃ stops, IsRow c.text p c.position stops ∧ stops.length = taken.length ∧
      stops.getLastD c.position = e.position := by
  generalize hpattern : p.pattern = pattern at h
  -- the row is built along the repetition, one stop for each text that was taken
  induction h with
  | @stop c hstays =>
    refine ⟨[], ⟨.singleton _, fun j hend => ?_⟩, rfl, rfl⟩
    rw [List.getLastD_nil] at hend ⊢
    rw [matchEnd?_position, hpattern] at hend
    obtain ⟨⟨found, d⟩, hmatch, rfl⟩ := Option.map_eq_some_iff.mp hend
    exact hstays found d hmatch
  | @again c d taken e found hmatch hmoves hrest ih =>
    obtain ⟨stops, hrow, hlength, hlast⟩ := ih
    have hadvances := match?_advances hmatch
    have hend : matchEnd? c.text p c.position = some d.position := by
      rw [matchEnd?_position, hpattern, hmatch]
      rfl
    have hlt : c.position < d.position := by
      have hposition := hadvances.position_eq
      omega
    rw [hadvances.text_eq] at hrow
    refine ⟨d.position :: stops, ⟨?_, ?_⟩, ?_, ?_⟩
    · exact List.isChain_cons_cons.mpr ⟨⟨hlt, hend⟩, hrow.chain⟩
    · rw [List.getLastD_cons]
      exact hrow.last
    · rw [List.length_cons, List.length_cons, hlength]
    · rw [List.getLastD_cons]
      exact hlast

/--
**Asking for a pattern repeatedly takes the one row of matches that cannot be made longer.** A
cursor is put at a position of a text, and any pattern is asked for as many times as possible. The
loop this stands for ends. Matches of the pattern, asked for one by one from that position on, make
a row, and there is no other: each takes something and is followed by the next, and behind the last
one there is no match, or one that takes nothing. The cursor is left where the row ends, and the
answer is the text of the row; if the row has no match in it, there is no answer.
-/
theorem repeatedly_row (h : first ≤ text.length) (p : PatternValue) :
    ∃ c stops, ofData (.text text) (.int first) = .ok c ∧
      (∃ taken, Repeats p.pattern c taken (c.after? .repeatedly (.pattern p)) ∧
        taken.length = stops.length) ∧
      IsRow text p first stops ∧ (∀ others, IsRow text p first others → others = stops) ∧
      (c.after? .repeatedly (.pattern p)).text = text ∧
      (c.after? .repeatedly (.pattern p)).position = stops.getLastD first ∧
      c.ask? .repeatedly (.pattern p) = .ok (if stops = [] then none else
        some (.text (slice text first (stops.getLastD first)),
          c.after? .repeatedly (.pattern p))) := by
  obtain ⟨c, hc, rfl, rfl⟩ := exists_ofData h
  obtain ⟨taken, e, hrepeats, hafter, hask⟩ := ask?_repeatedly p c
  obtain ⟨stops, hrow, hlength, hlast⟩ := hrepeats.exists_isRow
  have hadvances := hrepeats.advances
  have hnil : stops = [] ↔ taken = [] := by
    rw [← List.length_eq_zero_iff, hlength, List.length_eq_zero_iff]
  refine ⟨c, stops, hc, ?_⟩
  rw [hafter, hask, hlast, hadvances.slice_eq]
  simp only [hnil, and_true]
  exact ⟨⟨taken, hrepeats, hlength.symm⟩, hrow, fun _ => hrow.unique, hadvances.text_eq⟩

/-- A pattern that takes a letter at two places and nothing at the next. -/
theorem repeatedly_row_letters : 1 ≤ "cabcb".toList.length ∧
    ∃ p, Pattern.compile ['a', '|', 'b', '|'] = .ok p ∧
      ∃ c, ofData (.text "cabcb".toList) (.int 1) = .ok c ∧
        IsRow "cabcb".toList ⟨.unique 0, p⟩ 1 [2, 3] ∧
        c.ask? .repeatedly (.pattern ⟨.unique 0, p⟩) = .ok (some (.text "ab".toList,
          c.after? .repeatedly (.pattern ⟨.unique 0, p⟩))) := by
  have hstart : 1 ≤ "cabcb".toList.length := by decide
  obtain ⟨p, hp⟩ : ∃ p, Pattern.compile ['a', '|', 'b', '|'] = .ok p := ⟨_, rfl⟩
  have hletters : IsRow "cabcb".toList ⟨.unique 0, p⟩ 1 [2, 3] := by
    cases hp
    refine ⟨List.isChain_cons_cons.mpr ⟨⟨by decide, rfl⟩,
      List.isChain_cons_cons.mpr ⟨⟨by decide, rfl⟩, .singleton _⟩⟩, fun j hend => ?_⟩
    exact (Option.some.inj (hend.symm.trans rfl) : j = 3)
  obtain ⟨c, stops, hc, -, hrow, hunique, -, -, hask⟩ := repeatedly_row hstart ⟨.unique 0, p⟩
  obtain rfl := hunique _ hletters
  exact ⟨hstart, p, hp, c, hc, hrow, hask⟩

end Abnf.Cursor
