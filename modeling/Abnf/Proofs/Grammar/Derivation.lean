import Abnf.Proofs.Grammar.Reading

/-!
# What is read is derived

The other direction: where a reader comes to an end, the characters it took have a derivation, and
what was read is what the phrase of that derivation stands for. Nothing is asked of the characters
that are left, which may be none that a phrase can be followed by; so `Derives.readsAs` does not say
this, though it says more where it applies.

A concatenation is read with an open end, so the statement about its loop speaks of the text before
the characters left as well: a concatenation, and the white space that made the loop go on.
-/

namespace Abnf.Grammar

open Token

variable {scope : Scope} {u v w cs rest : List Char} {depth : Nat} {expr : Expr}
  {stands : Phrase → Prop}

/-- A text that has a phrase of a nonterminal and white space in front of what is left. -/
def BeginsWith (n : Nonterminal) (cs rest : List Char) : Prop :=
  ∃ p u w, Derives n p u ∧ Blanks w ∧ cs = u ++ (w ++ rest)

/-- A text that begins so, with a phrase that stands for something. -/
def BeginsAs (stands : Phrase → Prop) (n : Nonterminal) (cs rest : List Char) : Prop :=
  ∃ p u w, Derives n p u ∧ Blanks w ∧ cs = u ++ (w ++ rest) ∧ stands p

theorem BeginsAs.beginsWith {n : Nonterminal} (h : BeginsAs stands n cs rest) :
    BeginsWith n cs rest := by
  obtain ⟨p, u, w, hp, hw, hcs, -⟩ := h
  exact ⟨p, u, w, hp, hw, hcs⟩

/-- More white space may be counted in. -/
theorem BeginsAs.skip {n : Nonterminal} (h : BeginsAs stands n cs rest) :
    BeginsAs stands n cs (skip rest) := by
  obtain ⟨p, u, w, hp, hw, hcs, hstands⟩ := h
  obtain ⟨v, hv, hrest⟩ := exists_blanks_skip rest
  exact ⟨p, u, w ++ v, hp, hw.append hv, by rw [List.append_assoc, ← hrest, hcs], hstands⟩

theorem BeginsWith.skip {n : Nonterminal} (h : BeginsWith n cs rest) :
    BeginsWith n cs (skip rest) := by
  obtain ⟨p, u, w, hp, hw, hcs⟩ := h
  have hbegins : BeginsAs (fun _ => True) n cs rest := ⟨p, u, w, hp, hw, hcs, trivial⟩
  exact hbegins.skip.beginsWith

/-- A phrase that stands for an expression where groups may nest so deeply. -/
def Phrase.StandsFor (scope : Scope) (depth : Nat) (expr : Expr) (p : Phrase) : Prop :=
  p.verdictOne scope depth = .ok expr

/-- The inside of a group that stands for an expression. -/
def Phrase.StandsInside (scope : Scope) (depth : Nat) (expr : Expr) (p : Phrase) : Prop :=
  (group p).StandsFor scope depth expr

/-- What a group takes behind its opening character. -/
theorem readGroup_sound {body : List Char → Except Fault (Expr × List Char)}
    (hbody : ∀ cs expr rest, body cs = .ok (expr, rest) →
      BeginsAs (Phrase.StandsInside scope depth expr) .alternation cs rest)
    {closing : Char} {expected : Expected}
    (h : readGroup body closing expected cs = .ok (expr, rest)) :
    ∃ p v u w, Blanks v ∧ Derives .alternation p u ∧ Blanks w ∧
      cs = v ++ (u ++ (w ++ closing :: rest)) ∧ p.StandsInside scope depth expr := by
  unfold readGroup at h
  simp only [Except.bind_eq_ok, Prod.exists] at h
  obtain ⟨inner, left, hread, h⟩ := h
  obtain ⟨v, hv, hcs⟩ := exists_blanks_skip cs
  obtain ⟨p, u, w, hp, hw, hskip, hstands⟩ := (hbody _ _ _ hread).skip
  split at h
  · rename_i c after hleft
    split at h
    · rename_i hc
      cases h
      exact ⟨p, v, u, w, hv, hp, hw, by rw [← hc, ← hleft, ← hskip, ← hcs], hstands⟩
    · cases h
  · cases h

/-- An element that is read has a derivation. -/
theorem readElement_sound {body : List Char → Except Fault (Expr × List Char)}
    (hbody : ∀ cs expr rest, body cs = .ok (expr, rest) →
      BeginsAs (Phrase.StandsInside scope depth expr) .alternation cs rest)
    (h : readElement scope body cs = .ok (some (expr, rest))) :
    ∃ p u, Derives .element p u ∧ cs = u ++ rest ∧ p.StandsFor scope depth expr := by
  unfold readElement at h
  split at h
  · simp only [Except.bind_eq_ok, Except.pure_eq_ok] at h
    obtain ⟨taken, hgroup, heq⟩ := h
    cases heq
    obtain ⟨p, v, u, w, hv, hp, hw, rfl, hstands⟩ := readGroup_sound hbody hgroup
    exact ⟨_, _, .group hv hp hw, by simp, hstands⟩
  · simp only [Except.bind_eq_ok, Except.pure_eq_ok] at h
    obtain ⟨taken, hgroup, heq⟩ := h
    cases heq
    obtain ⟨p, v, u, w, hv, hp, hw, rfl, hstands⟩ := readGroup_sound hbody hgroup
    refine ⟨_, _, .option hv hp hw, by simp, ?_⟩
    rw [Phrase.StandsFor, Phrase.verdictOne_option]
    exact Except.bind_eq_ok.mpr ⟨_, hstands, rfl⟩
  · simp only [Except.pure_eq_ok, Option.map_eq_some_iff] at h
    obtain ⟨taken, htaken, heq⟩ := h
    cases heq
    obtain ⟨rfl, htext⟩ := exists_of_upTo? htaken
    exact ⟨_, _, .quoted htext, by simp, rfl⟩
  · simp only [Except.pure_eq_ok, Option.map_eq_some_iff] at h
    obtain ⟨taken, htaken, heq⟩ := h
    cases heq
    obtain ⟨rfl, htext⟩ := exists_of_upTo? htaken
    exact ⟨_, _, .prose htext, by simp, rfl⟩
  · split at h
    · rename_i hnumbers
      simp only [Except.bind_eq_ok, Except.pure_eq_ok] at h
      obtain ⟨_, hresolve, heq⟩ := h
      cases heq
      obtain ⟨u, hu, rfl⟩ := exists_of_numbers? hnumbers
      refine ⟨_, _, .codes hu, rfl, ?_⟩
      rw [Phrase.StandsFor, Phrase.verdictOne_codes, ← outcome_resolveNumbers, outcome_eq_ok]
      exact hresolve
    · cases h
  · split at h
    · rename_i hname
      simp only [Except.bind_eq_ok, Except.pure_eq_ok] at h
      obtain ⟨_, hresolve, heq⟩ := h
      cases heq
      obtain ⟨u, hu, rfl, rfl⟩ := exists_of_name? hname
      refine ⟨_, _, .reference hu, rfl, ?_⟩
      rw [Phrase.StandsFor, Phrase.verdictOne_reference, ← outcome_resolveName, outcome_eq_ok]
      exact hresolve
    · cases h

/-- An element under its repeat. -/
theorem exists_repetition {times : Option Repeat} {mid : List Char}
    (h : readRepeat cs = .ok (times, mid)) {p : Phrase} (hp : Derives .element p u)
    (hmid : mid = u ++ rest) (hstands : p.StandsFor scope depth expr) :
    ∃ q v, Derives .repetition q v ∧ cs = v ++ rest ∧
      q.StandsFor scope depth (applyRepeat times expr) := by
  unfold readRepeat at h
  split at h
  · cases h
    exact ⟨p, u, .once hp, hmid, hstands⟩
  · rename_i hbounds
    simp only [Except.bind_eq_ok, Except.pure_eq_ok] at h
    obtain ⟨times, hresolve, heq⟩ := h
    cases heq
    obtain ⟨v, hv, rfl⟩ := exists_of_bounds? hbounds
    refine ⟨_, _, .times hv hp, by rw [hmid, List.append_assoc], ?_⟩
    rw [Phrase.StandsFor, Phrase.verdictOne_times, ← outcome_resolveBounds]
    exact Except.bind_eq_ok.mpr ⟨times, outcome_eq_ok.mpr hresolve,
      Except.bind_eq_ok.mpr ⟨expr, hstands, rfl⟩⟩

/-- No repeat is taken if none is found. -/
theorem eq_of_readRepeat_none {mid : List Char} (h : readRepeat cs = .ok (none, mid)) :
    mid = cs := by
  unfold readRepeat at h
  split at h
  · cases h
    rfl
  · simp only [Except.bind_eq_ok, Except.pure_eq_ok] at h
    obtain ⟨_, -, heq⟩ := h
    cases heq

/-- The text that a concatenation has taken before it goes on. -/
def TakenBefore (scope : Scope) (depth : Nat) : Option Expr → List Char → Prop
  | none, before => before = []
  | some expr, before => ∃ p u b w, Derives .concatenation p u ∧ Blank b ∧ Blanks w ∧
      before = u ++ (b ++ w) ∧ p.StandsFor scope depth expr

theorem TakenBefore.derives {before : Option Expr} {q : Phrase}
    (h : TakenBefore scope depth before u) (hq : Derives .repetition q v)
    (hstands : q.StandsFor scope depth expr) : ∃ p, Derives .concatenation p (u ++ v) ∧
      p.StandsFor scope depth (append before expr) := by
  cases before with
  | none =>
    obtain rfl : u = [] := h
    exact ⟨q, .single hq, hstands⟩
  | some before =>
    obtain ⟨p, u, b, w, hp, hb, hw, rfl, hbefore⟩ := h
    refine ⟨.seq p q, ?_, ?_⟩
    · rw [List.append_assoc, List.append_assoc]
      exact .seq hp hb hw hq
    · rw [Phrase.StandsFor, Phrase.verdictOne_seq]
      exact Except.bind_eq_ok.mpr ⟨before, hbefore, Except.bind_eq_ok.mpr ⟨expr, hstands, rfl⟩⟩

theorem readConcatenation_sound
    {element : List Char → Except Fault (Option (Expr × List Char))}
    (helement : ∀ cs expr rest, element cs = .ok (some (expr, rest)) →
      ∃ p u, Derives .element p u ∧ cs = u ++ rest ∧ p.StandsFor scope depth expr) :
    ∀ (n : Nat) (before : Option Expr) (taken : List Char) {expr : Expr} {cs rest : List Char},
      TakenBefore scope depth before taken →
      readConcatenation element n before cs = .ok (expr, rest) →
      BeginsAs (Phrase.StandsFor scope depth expr) .concatenation (taken ++ cs) rest
  | 0, _, _, _, _, _, _, h => by cases h
  | n + 1, before, taken, expr, cs, rest, htaken, h => by
      obtain ⟨times, mid, hrepeat, ⟨-, rfl, _, rfl, heq⟩ | ⟨found, left, hread, hnext⟩⟩ :=
        readConcatenation_eq_ok.mp h
      · cases heq
        obtain rfl := eq_of_readRepeat_none hrepeat
        obtain ⟨p, u, b, w, hp, hb, hw, rfl, hstands⟩ := htaken
        exact ⟨p, u, b ++ w, hp, .cons hb hw, by simp, hstands⟩
      · obtain ⟨p, u, hp, hmid, hstands⟩ := helement _ _ _ hread
        obtain ⟨q, v, hq, rfl, hstands⟩ := exists_repetition hrepeat hp hmid hstands
        obtain ⟨r, hr, hstands⟩ := htaken.derives hq hstands
        unfold continueFrom at hnext
        split at hnext
        · cases hnext
          exact ⟨r, taken ++ v, [], hr, .nil, by simp, hstands⟩
        · rename_i after hskip
          obtain ⟨-, b, w, hb, hw, rfl⟩ := exists_of_skip? hskip
          have hbefore : TakenBefore scope depth (some (append before (applyRepeat times found)))
              ((taken ++ v) ++ (b ++ w)) := ⟨r, taken ++ v, b, w, hr, hb, hw, rfl, hstands⟩
          have := readConcatenation_sound helement n _ _ hbefore hnext
          simpa only [List.append_assoc] using this

/-- Alternatives that stand for expressions in order. -/
def Phrase.StandsForAll (scope : Scope) (depth : Nat) (first : Expr) (more : List Expr)
    (p : Phrase) : Prop :=
  p.verdict scope depth = .ok (first, more)

theorem Derives.standsForAll {p : Phrase} (h : Derives .concatenation p u)
    (hstands : p.StandsFor scope depth expr) : p.StandsForAll scope depth expr [] := by
  rw [Phrase.StandsForAll, h.verdict_eq nofun]
  exact Except.bind_eq_ok.mpr ⟨expr, hstands, rfl⟩

theorem readAlternatives_sound {concatenation : List Char → Except Fault (Expr × List Char)}
    (hconcatenation : ∀ cs expr rest, concatenation cs = .ok (expr, rest) →
      BeginsAs (Phrase.StandsFor scope depth expr) .concatenation cs rest) (n : Nat)
    (cs : List Char) :
    ∀ {first : Expr} {more : List Expr} {q : Phrase} {v w rest : List Char},
      Derives .concatenation q v → q.StandsFor scope depth first → Blanks w →
      readAlternatives concatenation n cs = .ok (more, rest) →
      BeginsAs (Phrase.StandsForAll scope depth first more) .alternation (v ++ (w ++ cs)) rest := by
  -- on the alternatives: the first is derived already, and each slash adds what follows it
  fun_induction readAlternatives concatenation n cs with
  | case1 n cs ih =>
    intro first more q v w rest hq hfirst hw h
    simp only [Except.bind_eq_ok, Except.pure_eq_ok, Prod.exists] at h
    obtain ⟨second, left, hread, others, _, hmore, heq⟩ := h
    cases heq
    obtain ⟨x, hx, hcs⟩ := exists_blanks_skip cs
    obtain ⟨p, u, y, hp, hy, hskip, hsecond⟩ := (hconcatenation _ _ _ hread).skip
    obtain ⟨r, t, z, hr, hz, hrest, hothers⟩ := ih left hp hsecond hy hmore
    refine ⟨.alt q r, _, z, .alt hq hw hx hr, hz, by rw [hcs, hskip, hrest]; simp, ?_⟩
    exact Except.bind_eq_ok.mpr ⟨(first, []), hq.standsForAll hfirst,
      Except.bind_eq_ok.mpr ⟨(second, others), hothers, rfl⟩⟩
  | case2 n cs =>
    intro first more q v w rest hq hfirst hw h
    cases h
    exact ⟨q, v, w, .only hq, hw, rfl, hq.standsForAll hfirst⟩

/-- What an alternation takes, at whatever depth it stands, and what it is read as. -/
theorem readAlternation_stands : ∀ (depth : Nat) (cs : List Char) (expr : Expr) (rest : List Char),
    readAlternation scope depth cs = .ok (expr, rest) →
      BeginsAs (Phrase.StandsInside scope depth expr) .alternation cs rest
  | 0, _, _, _, h => by cases h
  | depth + 1, cs, expr, rest, h => by
      -- the depth goes down by one, and what is inside parentheses has been taken care of there
      have hconcatenation : ∀ cs expr rest, concatenationAt scope depth cs = .ok (expr, rest) →
          BeginsAs (Phrase.StandsFor scope depth expr) .concatenation cs rest := fun _ _ _ =>
        readConcatenation_sound (fun _ _ _ => readElement_sound (readAlternation_stands depth)) _
          none [] rfl
      obtain ⟨_, hfrom, heq⟩ := readAlternation_eq_ok.mp h
      obtain ⟨first, left, hread, more, _, hmore, rfl⟩ := alternativesFrom_eq_ok.mp hfrom
      cases heq
      obtain ⟨p, u, w, hp, hw, rfl, hfirst⟩ := (hconcatenation _ _ _ hread).skip
      obtain ⟨q, v, x, hq, hx, hcs, hstands⟩ :=
        readAlternatives_sound hconcatenation _ _ hp hfirst hw hmore
      refine ⟨q, v, x, hq, hx, hcs, ?_⟩
      rw [Phrase.StandsInside, Phrase.StandsFor, Phrase.verdictOne_group_succ]
      exact Except.bind_eq_ok.mpr ⟨(first, more), hstands, rfl⟩

theorem readAlternation_sound (depth : Nat) (cs : List Char) (expr : Expr) (rest : List Char)
    (h : readAlternation scope depth cs = .ok (expr, rest)) : BeginsWith .alternation cs rest :=
  (readAlternation_stands depth cs expr rest h).beginsWith

theorem elementAt_sound (depth : Nat) (cs : List Char) (expr : Expr) (rest : List Char)
    (h : elementAt scope depth cs = .ok (some (expr, rest))) :
    ∃ p u, Derives .element p u ∧ cs = u ++ rest := by
  obtain ⟨p, u, hp, hcs, -⟩ := readElement_sound (readAlternation_stands depth) h
  exact ⟨p, u, hp, hcs⟩

theorem concatenationAt_sound (depth : Nat) (cs : List Char) (expr : Expr) (rest : List Char)
    (h : concatenationAt scope depth cs = .ok (expr, rest)) :
    BeginsWith .concatenation cs rest := by
  have hbegins := readConcatenation_sound
    (fun _ _ _ => readElement_sound (readAlternation_stands depth)) _ none [] rfl h
  exact hbegins.beginsWith

end Abnf.Grammar
