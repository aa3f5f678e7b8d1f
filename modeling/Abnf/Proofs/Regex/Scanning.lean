import Abnf.Regex.Pattern

/-!
# Runs that are never given back

A greedy repeat of a character tries the longest run first, and gives back one character after the
other as long as what follows fails. Often that is of no use. What follows may fail in front of each
character of the run, or never fail at all; in both cases it succeeds behind a character of the run
if it succeeds before it (`Onward`). Then the repeat comes to the end of the longest run and to no
other place (`attempt_any`, `attempt_some`), as a scanner does that never goes back.
-/

namespace Abnf.Regex

variable {wanted : Char → Bool} {next : Place → Option Place} {rule : CaseRule} {chars : CharSet}
  {p q : Place} {c : Char} {rest : List Char}

/-! ## Part by part -/

theorem attempt_empty (p : Place) : Node.empty.attempt p next = next p := rfl

theorem attempt_set (p : Place) :
    (Node.set rule chars).attempt p next = (p.take? (chars.holds rule)).bind next := rfl

theorem attempt_seq (a b : Node) (p : Place) :
    (Node.seq a b).attempt p next = a.attempt p fun q => b.attempt q next := rfl

theorem attempt_alt (a b : Node) (p : Place) :
    (Node.alt a b).attempt p next = (a.attempt p next).or (b.attempt p next) := by
  have horElse : (Node.alt a b).attempt p next =
      (a.attempt p next).orElse fun _ => b.attempt p next := rfl
  rw [horElse]
  cases a.attempt p next <;> rfl

theorem attempt_capture (group : Nat) (body : Node) (p : Place) :
    (Node.capture group body).attempt p next =
      body.attempt (p.reopen group) fun q => next (q.record group p) := rfl

/-! ## One character -/

namespace Place

theorem take?_nil (h : p.after = []) : p.take? wanted = none := by
  rw [take?, h]

theorem take?_cons (h : p.after = c :: rest) :
    p.take? wanted =
      if wanted c then some { p with before := c :: p.before, after := rest } else none := by
  rw [take?, h]

theorem exists_of_take? (h : p.take? wanted = some q) :
    ∃ c rest, p.after = c :: rest ∧ wanted c ∧
      q = { p with before := c :: p.before, after := rest } := by
  cases hafter : p.after with
  | nil =>
    rw [take?_nil hafter] at h
    cases h
  | cons c rest =>
    rw [take?_cons hafter] at h
    split at h
    · rename_i hc
      cases h
      exact ⟨c, rest, rfl, hc, rfl⟩
    · cases h

/-- A character that is not the next one is not taken. -/
theorem take?_eq_none_of_head? (h : p.after.head? ≠ some c) : p.take? (fun d => d = c) = none := by
  cases htake : p.take? fun d => d = c with
  | none => rfl
  | some q =>
    obtain ⟨d, rest, hafter, hd, -⟩ := exists_of_take? htake
    obtain rfl : d = c := of_decide_eq_true hd
    exact absurd (by rw [hafter]; rfl) h

/-! ## The longest run -/

/-- The place behind the longest run of wanted characters. -/
def skip (p : Place) (wanted : Char → Bool) : Place :=
  { p with
    before := (p.after.takeWhile wanted).reverse ++ p.before
    after := p.after.dropWhile wanted }

theorem skip_eq_self (h : p.take? wanted = none) : p.skip wanted = p := by
  cases hafter : p.after with
  | nil =>
    rw [skip, hafter]
    exact congrArg (Place.mk p.before · p.captures) hafter.symm
  | cons c rest =>
    have hc : ¬ wanted c := by
      intro hc
      rw [take?_cons hafter, if_pos hc] at h
      cases h
    rw [skip, hafter, List.takeWhile_cons_of_neg hc, List.dropWhile_cons_of_neg hc]
    exact congrArg (Place.mk p.before · p.captures) hafter.symm

theorem upTo_skip (p : Place) (wanted : Char → Bool) :
    p.upTo (p.skip wanted) = p.after.takeWhile wanted := by
  have hindex : (p.skip wanted).index - p.index = (p.after.takeWhile wanted).length := by
    rw [index, skip, List.length_append, List.length_reverse, index, Nat.add_sub_cancel]
  rw [upTo, hindex]
  exact (List.prefix_iff_eq_take.mp (List.takeWhile_prefix wanted)).symm

/-- Behind a character of the run there is the same run, but for that character. -/
theorem skip_of_take? (h : p.take? wanted = some q) :
    q.skip wanted = p.skip wanted ∧ q.index = p.index + 1 ∧ q.after.length < p.after.length := by
  obtain ⟨c, rest, hafter, hc, rfl⟩ := exists_of_take? h
  rw [skip, skip, hafter, List.takeWhile_cons_of_pos hc, List.dropWhile_cons_of_pos hc]
  simp [index]

end Place

/-! ## What follows a run -/

/-- What succeeds before a wanted character succeeds behind it. -/
def Onward (wanted : Char → Bool) (next : Place → Option Place) : Prop :=
  ∀ ⦃p q : Place⦄, p.take? wanted = some q → next q = none → next p = none

/-- What never fails. -/
theorem Onward.of_ne_none (h : ∀ p, next p ≠ none) : Onward wanted next :=
  fun _ q _ hnone => absurd hnone (h q)

theorem onward_some : Onward wanted some := .of_ne_none Option.some_ne_none

/-- What fails in front of all wanted characters. -/
theorem Onward.of_none (h : ∀ p q, p.take? wanted = some q → next p = none) : Onward wanted next :=
  fun p q htake _ => h p q htake

/-- A character that is none of the wanted ones is missing in front of each of these. -/
theorem onward_literal {closing : Char} (h : ¬ wanted closing) (moved : Place → Place)
    (hmoved : ∀ q, (moved q).after = q.after) (next : Place → Option Place) :
    Onward wanted fun q => ((moved q).take? fun c => c = closing).bind next := by
  refine .of_none fun p q htake => ?_
  obtain ⟨c, rest, hafter, hc, -⟩ := Place.exists_of_take? htake
  have hne : ¬ decide (c = closing) := by
    rw [decide_eq_true_eq]
    rintro rfl
    exact h hc
  rw [Place.take?_cons ((hmoved p).trans hafter), if_neg hne]
  rfl

/-- What fails at the end of the longest run fails all along it. -/
theorem Onward.eq_none (h : Onward wanted next) (hend : next (p.skip wanted) = none) :
    next p = none := by
  induction hlength : p.after.length using Nat.strongRecOn generalizing p with
  | ind n ih =>
    cases htake : p.take? wanted with
    | none => rwa [Place.skip_eq_self htake] at hend
    | some q =>
      obtain ⟨hskip, -, hlt⟩ := Place.skip_of_take? htake
      exact h htake (ih q.after.length (hlength ▸ hlt) (hskip ▸ hend) rfl)

/-! ## Repeats -/

/-- A round more, or none, where the last round has moved. -/
theorem upTo_succ (attempt : Attempt) {n : Nat} {last : Option Nat} (h : last ≠ some p.index) :
    Attempt.upTo attempt false (n + 1) last p next =
      (attempt p fun q => Attempt.upTo attempt false n (some p.index) q next).or (next p) := by
  simp only [Attempt.upTo, if_neg h, if_neg Bool.false_ne_true]
  cases attempt p _ <;> rfl

/-- A round, or none. -/
theorem attempt_optional (body : Node) (p : Place) :
    (Node.iterate false 0 (some 1) body).attempt p next = (body.attempt p next).or (next p) := by
  have hspare : Attempt.spare 0 (some 1) p = 1 := Nat.min_eq_left (Nat.le_add_left 1 _)
  have hround : (Node.iterate false 0 (some 1) body).attempt p next =
      Attempt.upTo body.attempt false (Attempt.spare 0 (some 1) p) none p next := rfl
  rw [hround, hspare]
  exact upTo_succ body.attempt (Option.some_ne_none _).symm

theorem upTo_take (hnext : Onward wanted next) :
    ∀ (n : Nat) (last : Option Nat) (p : Place), p.after.length < n → last ≠ some p.index →
      Attempt.upTo (fun p next => (p.take? wanted).bind next) false n last p next =
        next (p.skip wanted)
  | 0, _, _, hn, _ => absurd hn (Nat.not_lt_zero _)
  | n + 1, last, p, hn, hlast => by
      rw [upTo_succ _ hlast]
      cases htake : p.take? wanted with
      | none => rw [Place.skip_eq_self htake, Option.bind_none, Option.none_or]
      | some q =>
        obtain ⟨hskip, hindex, hlength⟩ := Place.skip_of_take? htake
        have hmoved : some p.index ≠ some q.index := by
          rw [ne_eq, Option.some.injEq]
          omega
        rw [Option.bind_some, upTo_take hnext n _ q (by omega) hmoved, hskip]
        -- what follows is tried at the end of the run, and before it only where it fails there
        cases hend : next (p.skip wanted) with
        | some r => rfl
        | none => rw [hnext.eq_none hend, Option.none_or]

/-- As many characters as possible. -/
theorem attempt_any (h : chars.holds rule = wanted) (hnext : Onward wanted next) (p : Place) :
    (Node.iterate false 0 none (.set rule chars)).attempt p next = next (p.skip wanted) := by
  subst h
  exact upTo_take hnext _ none p (Nat.lt_succ_self _) (Option.some_ne_none _).symm

/-- As many characters as possible, and at least one. -/
theorem attempt_some (h : chars.holds rule = wanted) (hnext : Onward wanted next) (p : Place) :
    (Node.iterate false 1 none (.set rule chars)).attempt p next =
      (p.take? wanted).bind fun _ => next (p.skip wanted) := by
  have hfirst : (Node.iterate false 1 none (.set rule chars)).attempt p next =
      (p.take? (chars.holds rule)).bind fun q =>
        (Node.iterate false 0 none (.set rule chars)).attempt q next := rfl
  rw [hfirst, h]
  cases htake : p.take? wanted with
  | none => rfl
  | some q =>
    rw [Option.bind_some, Option.bind_some, attempt_any h hnext q, (Place.skip_of_take? htake).1]

/-- Where nothing follows, further rounds never fail. -/
theorem upTo_ne_none (attempt : Attempt) (n : Nat) (last : Option Nat) (p : Place) :
    Attempt.upTo attempt false n last p some ≠ none := by
  cases n with
  | zero => exact Option.some_ne_none p
  | succ n =>
    by_cases h : last = some p.index
    · simp only [Attempt.upTo, if_pos h]
      exact Option.some_ne_none p
    · rw [upTo_succ attempt h]
      cases attempt p _ <;> exact Option.some_ne_none _

end Abnf.Regex
