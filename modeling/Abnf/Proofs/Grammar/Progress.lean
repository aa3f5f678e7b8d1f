import Abnf.Proofs.Grammar.Limits
import Abnf.Proofs.Grammar.Places

/-!
# The reader goes forward

A reader that comes to an end has left something behind it, even if what it read matches only the
empty text: a derived text is never empty (`Derives.passes`). So the characters left are fewer from
round to round of every loop and from each group to what is inside it, and no loop and no nesting of
groups can go on for longer than there are characters.

The readers are written with bounds: so many elements, so many alternatives, so many lines, groups
so deep. The loops are therefore compared with loops that have none (`Ends`), and the readers of
groups with those that allow groups to nest more deeply (`Agrees`). The first are the same. The
second are the same too, unless the reading is given up for the depth of groups, and that it never
is while more depth is allowed than there are characters.
-/

namespace Abnf.Grammar

open Token

variable {α β σ : Type} {scope : Scope} {n depth limit : Nat} {cs mid rest left : List Char}

/-! ## What is passed -/

/-- Something is passed to come from some characters to those that are left. -/
def Passes (cs rest : List Char) : Prop := ∃ u, u ≠ [] ∧ cs = u ++ rest

theorem Passes.length_lt (h : Passes cs rest) : rest.length < cs.length := by
  obtain ⟨u, hu, rfl⟩ := h
  have hpos := List.length_pos_iff.mpr hu
  rw [List.length_append]
  omega

/-- What follows may pass more. -/
theorem Passes.suffix (h : Passes cs mid) (hrest : rest <:+ mid) : Passes cs rest := by
  obtain ⟨u, hu, rfl⟩ := h
  obtain ⟨v, rfl⟩ := hrest
  exact ⟨u ++ v, List.append_ne_nil_of_left_ne_nil hu v, (List.append_assoc ..).symm⟩

theorem Derives.passes {k : Nonterminal} {p : Phrase} {u : List Char} (h : Derives k p u)
    (rest : List Char) : Passes (u ++ rest) rest := by
  obtain ⟨c, tail, rfl, -⟩ := h.head
  exact ⟨c :: tail, List.cons_ne_nil _ _, rfl⟩

theorem BeginsWith.passes {k : Nonterminal} (h : BeginsWith k cs rest) : Passes cs rest := by
  obtain ⟨p, u, w, hp, -, rfl⟩ := h
  exact (hp.passes (w ++ rest)).suffix (List.suffix_append w rest)

theorem elementAt_passes {expr : Expr} (h : elementAt scope depth cs = .ok (some (expr, rest))) :
    Passes cs rest := by
  obtain ⟨p, u, hp, rfl⟩ := elementAt_sound depth cs expr rest h
  exact hp.passes rest

theorem concatenationAt_passes {expr : Expr}
    (h : concatenationAt scope depth cs = .ok (expr, rest)) : Passes cs rest :=
  (concatenationAt_sound depth cs expr rest h).passes

theorem readAlternation_passes {expr : Expr}
    (h : readAlternation scope depth cs = .ok (expr, rest)) : Passes cs rest :=
  (readAlternation_sound depth cs expr rest h).passes

/-- A line may be empty, but not the line end behind it. -/
theorem readLine_passes [Interpreter] {next : Scope × Bool}
    (h : readLine scope cs = .ok (next, rest))
    (hend : lineEnd? rest = some left) : Passes cs left := by
  obtain ⟨nl, hnl, rfl⟩ := exists_of_lineEnd? hend
  obtain ⟨_, u, -, -, rfl, -⟩ := exists_piece h
  have hne : nl ≠ [] := by cases hnl <;> exact List.cons_ne_nil _ _
  exact ⟨u ++ nl, List.append_ne_nil_of_right_ne_nil u hne, (List.append_assoc ..).symm⟩

/-! ## Loops without a bound -/

/-- What a round of a loop comes to: the answer of the loop, or where the next round starts. -/
inductive Round (α σ : Type) where
  | last (answer : α)
  | next (state : σ)

/-- The loop ends: one of its rounds is refused or is the last one. -/
inductive Ends (round : σ → Except Fault (Round α σ)) : σ → Except Fault α → Prop
  | refused {s : σ} {fault : Fault} (h : round s = .error fault) : Ends round s (.error fault)
  | last {s : σ} {answer : α} (h : round s = .ok (.last answer)) : Ends round s (.ok answer)
  | next {s t : σ} {outcome : Except Fault α} (h : round s = .ok (.next t))
      (hrest : Ends round t outcome) : Ends round s outcome

/-- Where something gets less from round to round, a bound above it is not in the way. -/
theorem Ends.of_bounded {round : σ → Except Fault (Round α σ)} (bounded : Nat → σ → Except Fault α)
    (size : σ → Nat) (hsize : ∀ s t, round s = .ok (.next t) → size t < size s)
    (hbounded : ∀ n s, bounded (n + 1) s = do
      match ← round s with
      | .last answer => return answer
      | .next t => bounded n t) (s : σ) (h : size s < n) : Ends round s (bounded n s) := by
  -- the bound only has to exceed the size, which goes down in every round
  induction n generalizing s with
  | zero => exact absurd h (Nat.not_lt_zero _)
  | succ n ih =>
    rw [hbounded]
    cases hround : round s with
    | error fault => exact .refused hround
    | ok taken =>
      cases taken with
      | last answer => exact .last hround
      | next t =>
        have hlt := hsize s t hround
        exact .next hround (ih t (by omega))

/-- A round over white space. -/
def blankRound (cs : List Char) : Except Fault (Round (List Char) (List Char)) :=
  match blank? cs with
  | some rest => .ok (.next rest)
  | none => .ok (.last cs)

/-- A round over the elements of a concatenation. -/
def concatenationRound (element : List Char → Except Fault (Option (Expr × List Char))) :
    Option Expr × List Char → Except Fault (Round (Expr × List Char) (Option Expr × List Char))
  | (before, cs) => do
    let (times, rest) ← readRepeat cs
    match ← element rest with
    | none =>
      match times, before with
      | none, some expr => return .last (expr, rest)
      | _, _ => refuse (.expected .element) rest
    | some (expr, rest) =>
      let expr := append before (applyRepeat times expr)
      match skip? rest with
      | none => return .last (expr, rest)
      | some rest => return .next (some expr, rest)

/-- A round over the alternatives after the first. -/
def alternativesRound (concatenation : List Char → Except Fault (Expr × List Char)) :
    List Expr × List Char → Except Fault (Round (List Expr × List Char) (List Expr × List Char))
  | (before, cs) =>
    match cs with
    | '/' :: cs => do
      let (expr, rest) ← concatenation (skip cs)
      return .next (before ++ [expr], skip rest)
    | cs => return .last (before, cs)

/-- A round over the lines of a text. -/
def lineRound [Interpreter] : Scope × List Char → Except Fault (Round Scope (Scope × List Char))
  | (scope, cs) => do
    let ((scope, defined), rest) ← readLine scope cs
    if rest.isEmpty then return .last scope
    else
      match lineEnd? rest with
      | some rest => return .next (scope, rest)
      | none => refuse (.expected (if defined then .newLine else .ruleName)) rest

theorem skip_ends (cs : List Char) : Ends blankRound cs (.ok (skip cs)) := by
  have hskip : skip cs = skipBlanks (cs.length + 1) cs := skipBlanks_eq _ _ le_rfl (Nat.le_succ _)
  rw [hskip]
  refine Ends.of_bounded (fun n cs => .ok (skipBlanks n cs)) List.length ?_ ?_ cs
    (Nat.lt_succ_self _)
  · intro cs rest hround
    unfold blankRound at hround
    split at hround
    · rename_i hblank
      cases hround
      exact length_lt_of_blank? hblank
    · cases hround
  · intro n cs
    rw [blankRound, skipBlanks]
    cases blank? cs <;> rfl

/-- A round that goes on has found an element. -/
theorem concatenationRound_next {element : List Char → Except Fault (Option (Expr × List Char))}
    (helement : ∀ cs expr rest, element cs = .ok (some (expr, rest)) → Passes cs rest)
    {s t : Option Expr × List Char} (h : concatenationRound element s = .ok (.next t)) :
    t.2.length < s.2.length := by
  obtain ⟨before, cs⟩ := s
  simp only [concatenationRound, Except.bind_eq_ok, Prod.exists] at h
  obtain ⟨times, mid, hrepeat, taken, htaken, h⟩ := h
  have hmid := length_readRepeat_le hrepeat
  cases taken with
  | none =>
    dsimp only at h
    split at h <;> cases h
  | some taken =>
    -- what the repeat left is not more, what the element left is less
    have hrest := (helement _ _ _ htaken).length_lt
    dsimp only at h
    cases hskip : skip? taken.2 with
    | none =>
      rw [hskip] at h
      cases h
    | some left =>
      rw [hskip] at h
      cases h
      exact (length_skip?_le hskip).trans_lt (hrest.trans_le hmid)

theorem readConcatenation_ends {element : List Char → Except Fault (Option (Expr × List Char))}
    (helement : ∀ cs expr rest, element cs = .ok (some (expr, rest)) → Passes cs rest)
    (before : Option Expr) (h : cs.length < n) :
    Ends (concatenationRound element) (before, cs) (readConcatenation element n before cs) := by
  refine Ends.of_bounded (fun n s => readConcatenation element n s.1 s.2)
    (fun s => s.2.length) (fun s t => concatenationRound_next helement) ?_ (before, cs) h
  rintro n ⟨before, cs⟩
  rw [readConcatenation, concatenationRound]
  simp only [bind_assoc]
  refine congrArg _ (funext fun found => congrArg _ (funext fun taken => ?_))
  obtain ⟨times, mid⟩ := found
  cases taken with
  | none => cases times <;> cases before <;> rfl
  | some taken =>
    dsimp only
    cases skip? taken.2 <;> rfl

theorem alternativesRound_stop (concatenation : List Char → Except Fault (Expr × List Char))
    (before : List Expr) (h : cs.head? ≠ some '/') :
    alternativesRound concatenation (before, cs) = .ok (.last (before, cs)) := by
  dsimp only [alternativesRound]
  split
  · exact absurd rfl h
  · rfl

/-- A round that goes on has found an alternative. -/
theorem alternativesRound_next {concatenation : List Char → Except Fault (Expr × List Char)}
    (hconcatenation : ∀ cs expr rest, concatenation cs = .ok (expr, rest) → Passes cs rest)
    {s t : List Expr × List Char} (h : alternativesRound concatenation s = .ok (.next t)) :
    t.2.length < s.2.length := by
  obtain ⟨before, cs⟩ := s
  by_cases hslash : cs.head? = some '/'
  · obtain ⟨cs, rfl⟩ := List.head?_eq_some_iff.mp hslash
    simp only [alternativesRound, Except.bind_eq_ok, Prod.exists] at h
    obtain ⟨expr, rest, hread, heq⟩ := h
    cases heq
    have hlt := (hconcatenation _ _ _ hread).length_lt
    have hskip := length_skip_le rest
    have hcs := length_skip_le cs
    simp only [List.length_cons]
    omega
  · rw [alternativesRound_stop concatenation before hslash] at h
    cases h

theorem readAlternatives_ends {concatenation : List Char → Except Fault (Expr × List Char)}
    (hconcatenation : ∀ cs expr rest, concatenation cs = .ok (expr, rest) → Passes cs rest)
    (h : cs.length < n) :
    Ends (alternativesRound concatenation) ([], cs) (readAlternatives concatenation n cs) := by
  -- the loop puts an alternative behind those before it, the reader before those behind it
  have hbounded := Ends.of_bounded
    (fun n s => do
      let taken ← readAlternatives concatenation n s.2
      return (s.1 ++ taken.1, taken.2))
    (fun s => s.2.length) (fun s t => alternativesRound_next hconcatenation) ?_ ([], cs) h
  · convert hbounded using 1
    exact (bind_pure _).symm
  · rintro n ⟨before, cs⟩
    by_cases hslash : cs.head? = some '/'
    · obtain ⟨rest, rfl⟩ := List.head?_eq_some_iff.mp hslash
      simp only [alternativesRound, readAlternatives, bind_assoc, pure_bind, List.append_assoc,
        List.singleton_append]
    · rw [alternativesRound_stop concatenation before hslash]
      simp only [readAlternatives_stop concatenation hslash]
      exact congrArg (fun more => Except.ok (more, cs)) (List.append_nil before)

theorem lineRound_next [Interpreter] {s t : Scope × List Char} (h : lineRound s = .ok (.next t)) :
    Passes s.2 t.2 := by
  obtain ⟨scope, cs⟩ := s
  simp only [lineRound, Except.bind_eq_ok, Prod.exists] at h
  obtain ⟨next, defined, rest, hline, h⟩ := h
  split at h
  · cases h
  · split at h
    · rename_i hend
      cases h
      exact readLine_passes hline hend
    · cases h

theorem readLines_ends [Interpreter] (scope : Scope) (h : cs.length < n) :
    Ends lineRound (scope, cs) (readLines n scope cs) := by
  refine Ends.of_bounded (fun n s => readLines n s.1 s.2) (fun s => s.2.length)
    (fun s t hround => (lineRound_next hround).length_lt) ?_ (scope, cs) h
  rintro n ⟨scope, cs⟩
  rw [readLines, lineRound]
  simp only [bind_assoc]
  refine congrArg _ (funext fun line => ?_)
  obtain ⟨⟨next, defined⟩, rest⟩ := line
  dsimp only
  split
  · rfl
  · cases lineEnd? rest <;> rfl

/-! ## Groups of any depth -/

/-- A reading is given up for the depth of groups. -/
def TooDeep (x : Except Fault α) : Prop := ∃ left : Nat, x = .error ⟨.nestedTooDeeply, left⟩

theorem not_tooDeep {x : Except Fault α}
    (h : ∀ fault, x = .error fault → fault.cause ≠ .nestedTooDeeply) : ¬ TooDeep x :=
  fun ⟨_, hdeep⟩ => h _ hdeep rfl

/-- Two readings are the same, or the first is given up for the depth of groups, for a reason. -/
inductive Agrees (reason : Prop) (x y : Except Fault α) : Prop
  | same (heq : x = y) (hdeep : ¬ TooDeep x)
  | givenUp (hreason : reason) (hdeep : TooDeep x)

namespace Agrees

variable {P Q : Prop} {x y : Except Fault α} {f g : α → Except Fault β}

theorem refl (h : ¬ TooDeep x) : Agrees P x x := .same rfl h

theorem mono (h : Agrees P x y) (hreason : P → Q) : Agrees Q x y := by
  cases h with
  | same heq hdeep => exact .same heq hdeep
  | givenUp hP hdeep => exact .givenUp (hreason hP) hdeep

theorem bind (h : Agrees P x y) (hf : ∀ a, x = .ok a → Agrees P (f a) (g a)) :
    Agrees P (x >>= f) (y >>= g) := by
  cases h with
  | same heq hdeep =>
    subst heq
    cases x with
    | error fault => exact .same rfl fun ⟨left, h⟩ => hdeep ⟨left, by cases h; rfl⟩
    | ok a => exact hf a rfl
  | givenUp hP hdeep =>
    obtain ⟨left, rfl⟩ := hdeep
    exact .givenUp hP ⟨left, rfl⟩

theorem pure (a : α) : Agrees P (.ok a) (.ok a) := .refl (not_tooDeep nofun)

theorem refuse {cause : Cause} (h : cause ≠ .nestedTooDeeply) :
    Agrees P (Grammar.refuse cause left : Except Fault α) (Grammar.refuse cause left) :=
  .refl (not_tooDeep fun _ hrefuse => by cases hrefuse; exact h)

end Agrees

section

variable {P : Prop} {body body' : List Char → Except Fault (Expr × List Char)}

theorem readGroup_agrees
    (hbody : ∀ rest, rest.length ≤ cs.length → Agrees P (body rest) (body' rest))
    (closing : Char) (expected : Expected) :
    Agrees P (readGroup body closing expected cs) (readGroup body' closing expected cs) := by
  refine .bind (hbody _ (length_skip_le cs)) fun taken _ => ?_
  dsimp only
  split
  · split
    · exact .pure _
    · exact .refuse nofun
  · exact .refuse nofun

/-- An element asks for alternatives only behind its opening character. -/
theorem readElement_agrees
    (hbody : ∀ rest, rest.length < cs.length → Agrees P (body rest) (body' rest)) :
    Agrees P (readElement scope body cs) (readElement scope body' cs) := by
  -- only groups ask for what is inside, which is shorter by a bracket at least
  unfold readElement
  split
  · refine .bind (readGroup_agrees (fun rest hle => hbody rest ?_) _ _) fun _ _ => .pure _
    exact Nat.lt_succ_of_le hle
  · refine .bind (readGroup_agrees (fun rest hle => hbody rest ?_) _ _) fun _ _ => .pure _
    exact Nat.lt_succ_of_le hle
  · exact .pure _
  · exact .pure _
  · split
    · refine .bind (.refl (not_tooDeep fun _ h => ?_)) fun _ _ => .pure _
      exact (resolveNumbers_error h).nesting
    · exact .pure _
  · split
    · refine .bind (.refl (not_tooDeep fun fault h => ?_)) fun _ _ => .pure _
      unfold resolveName at h
      split at h
      · cases h
      · cases h
        exact nofun
    · exact .pure _

end

theorem readRepeat_not_tooDeep (cs : List Char) : ¬ TooDeep (readRepeat cs) := by
  refine not_tooDeep fun fault h => ?_
  unfold readRepeat at h
  split at h
  · cases h
  · rcases Except.bind_eq_error.mp h with h | ⟨_, -, h⟩
    · exact (resolveBounds_error h).nesting
    · cases h

theorem readConcatenation_agrees {P : Prop}
    {element element' : List Char → Except Fault (Option (Expr × List Char))}
    (hpasses : ∀ cs expr rest, element cs = .ok (some (expr, rest)) → Passes cs rest)
    (helement : ∀ rest, rest.length ≤ cs.length → Agrees P (element rest) (element' rest))
    (n : Nat) (before : Option Expr) :
    Agrees P (readConcatenation element n before cs) (readConcatenation element' n before cs) := by
  -- both run through the same rounds, as each element leaves the same
  induction n generalizing before cs with
  | zero => exact .refuse nofun
  | succ n ih =>
    refine .bind (.refl (readRepeat_not_tooDeep cs)) fun ⟨times, mid⟩ hrepeat => ?_
    have hmid := length_readRepeat_le hrepeat
    refine .bind (helement mid hmid) fun taken htaken => ?_
    cases taken with
    | none =>
      dsimp only
      split
      · exact .pure _
      · exact .refuse nofun
    | some taken =>
      have hrest := (hpasses _ _ _ htaken).length_lt
      dsimp only
      cases hskip : skip? taken.2 with
      | none => exact .pure _
      | some rest =>
        have hle := length_skip?_le hskip
        exact ih (fun left hleft => helement left (by omega)) _

theorem readAlternatives_agrees {P : Prop}
    {concatenation concatenation' : List Char → Except Fault (Expr × List Char)}
    (hpasses : ∀ cs expr rest, concatenation cs = .ok (expr, rest) → Passes cs rest)
    (hconcatenation : ∀ rest, rest.length ≤ cs.length →
      Agrees P (concatenation rest) (concatenation' rest)) (n : Nat) :
    Agrees P (readAlternatives concatenation n cs) (readAlternatives concatenation' n cs) := by
  -- likewise for the alternatives, each of which is behind a slash
  induction n generalizing cs with
  | zero => exact .pure _
  | succ n ih =>
    by_cases hslash : cs.head? = some '/'
    · obtain ⟨rest, rfl⟩ := List.head?_eq_some_iff.mp hslash
      have hskip := length_skip_le rest
      rw [List.length_cons] at hconcatenation
      refine .bind (hconcatenation _ (by omega)) fun taken htaken => ?_
      have hlt := (hpasses _ _ _ htaken).length_lt
      have hle := length_skip_le taken.2
      refine .bind (ih fun left hleft => hconcatenation left ?_) fun _ _ => .pure _
      omega
    · rw [readAlternatives_stop _ hslash, readAlternatives_stop _ hslash]
      exact .pure _

/--
What is read with one limit to the depth of groups is read with every higher one. It is given up for
the depth only if the characters are no fewer than the limit.
-/
theorem readAlternation_agrees (scope : Scope) (cs : List Char) (h : depth ≤ limit) :
    Agrees (depth ≤ cs.length) (readAlternation scope depth cs)
    (readAlternation scope limit cs) := by
  -- each group is opened by a character, which is one level less to be allowed
  induction depth generalizing limit cs with
  | zero => exact .givenUp (Nat.zero_le _) ⟨cs.length, rfl⟩
  | succ depth ih =>
    obtain ⟨limit, rfl⟩ := Nat.exists_eq_succ_of_ne_zero (Nat.ne_zero_of_lt h)
    have helement : ∀ rest, rest.length ≤ cs.length → Agrees (depth + 1 ≤ cs.length)
        (elementAt scope depth rest) (elementAt scope limit rest) := fun rest hrest =>
      readElement_agrees fun left hleft =>
        (ih left (Nat.le_of_succ_le_succ h)).mono fun hdepth => by omega
    have hconcatenation : ∀ rest, rest.length ≤ cs.length → Agrees (depth + 1 ≤ cs.length)
        (concatenationAt scope depth rest) (concatenationAt scope limit rest) := fun rest hrest =>
      readConcatenation_agrees (fun _ _ _ => elementAt_passes)
        (fun left hleft => helement left (hleft.trans hrest)) _ _
    refine .bind (hconcatenation cs le_rfl) fun ⟨first, rest⟩ hfirst => ?_
    have hlt := (concatenationAt_passes hfirst).length_lt
    have hle := length_skip_le rest
    refine .bind (readAlternatives_agrees (fun _ _ _ => concatenationAt_passes)
      (fun left hleft => hconcatenation left ?_) _) fun _ _ => .pure _
    omega

/-! ## Any text -/

/-- What the readers do at the characters that are left to them, with what is defined by then. -/
structure GoesForward [Interpreter] (scope : Scope) (cs : List Char) : Prop where
  /-- No element is found and the same characters are left, or one is, and something is passed. -/
  element : ∀ depth taken, elementAt scope depth cs = .ok taken →
    taken = none ∨ ∃ expr rest, taken = some (expr, rest) ∧ Passes cs rest
  /-- A concatenation passes something. -/
  concatenation : ∀ depth expr rest, concatenationAt scope depth cs = .ok (expr, rest) →
    Passes cs rest
  /-- Alternatives pass something. -/
  alternation : ∀ depth expr rest, readAlternation scope depth cs = .ok (expr, rest) →
    Passes cs rest
  /-- A line that another one follows is passed. -/
  line : ∀ next, lineRound (scope, cs) = .ok (.next next) → Passes cs next.2

/-- The loops and the nesting of the readers, at the characters that are left to them. -/
structure ComesToAnEnd [Interpreter] (scope : Scope) (cs : List Char) : Prop where
  /-- The loop over white space. -/
  blanks : Ends blankRound cs (.ok (skip cs))
  /-- The loop over the elements of a concatenation. -/
  elements : ∀ depth, Ends (concatenationRound (elementAt scope depth)) (none, cs)
    (concatenationAt scope depth cs)
  /-- The loop over further alternatives, once the first has been read. -/
  alternatives : ∀ depth first rest, concatenationAt scope depth cs = .ok (first, rest) →
    Ends (alternativesRound (concatenationAt scope depth)) ([], skip rest)
      (readAlternatives (concatenationAt scope depth) cs.length (skip rest))
  /-- Groups nest no more deeply than there are characters. -/
  groups : ∀ depth limit, depth ≤ limit →
    Agrees (depth ≤ cs.length) (readAlternation scope depth cs) (readAlternation scope limit cs)
  /-- The loop over lines. -/
  lines : Ends lineRound (scope, cs) (readLines (cs.length + 1) scope cs)

theorem goesForward [Interpreter] (scope : Scope) (cs : List Char) : GoesForward scope cs where
  element depth taken h := by
    cases taken with
    | none => exact .inl rfl
    | some taken => exact .inr ⟨taken.1, taken.2, rfl, elementAt_passes h⟩
  concatenation _ _ _ := concatenationAt_passes
  alternation _ _ _ := readAlternation_passes
  line _ := lineRound_next

/-- The empty string is an element, and a pattern without a character stands for it. -/
example : elementAt {} 0 ['"', '"', ' '] = .ok (some (.literal [], [' '])) ∧
    Expr.source (.literal []) = [] := ⟨rfl, rfl⟩

theorem comesToAnEnd [Interpreter] (scope : Scope) (cs : List Char) : ComesToAnEnd scope cs where
  blanks := skip_ends cs
  elements depth :=
    readConcatenation_ends (fun _ _ _ => elementAt_passes) none (Nat.lt_succ_self _)
  alternatives depth first rest h := by
    have hlt := (concatenationAt_passes h).length_lt
    exact readAlternatives_ends (fun _ _ _ => concatenationAt_passes)
      ((length_skip_le rest).trans_lt hlt)
  groups _ _ := readAlternation_agrees scope cs
  lines := readLines_ends scope (Nat.lt_succ_self _)

/--
**The reader goes forward, so it comes to an end.** Whatever characters are left to it, and whatever
is defined by then: an element that is read is passed, even if its pattern is empty, and so are a
concatenation, alternatives, and a line that another one follows. The loops over white space, over
elements, over alternatives and over lines end, although nothing in them counts their rounds, and
what the bounded readers answer is what they end with. Groups are read alike under all limits to
their depth that leave room for the characters, and a lower limit changes nothing unless the reading
is given up for it.
-/
theorem reader_goesForward [Interpreter] (scope : Scope) (cs : List Char) :
    GoesForward scope cs ∧ ComesToAnEnd scope cs :=
  ⟨goesForward scope cs, comesToAnEnd scope cs⟩

end Abnf.Grammar
