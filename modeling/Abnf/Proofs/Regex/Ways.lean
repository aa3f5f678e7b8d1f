import Abnf.Regex.Pattern

/-!
# The ways of an expression

An expression is matched by trying its ways in order until what follows succeeds. Here the ways
themselves are listed: `Node.ways` gives the places where an expression can end, in the order in
which they are tried, and `Node.attempt_eq` says that matching is a search through that list. What
an expression matches is then a question about the members of a list, and no longer about what
follows.

Every way leads forward through the text, by `Node.moves_of_mem_ways`. That is also why the bound on
the rounds of a repeat is no bound at all (`upToWays_eq`): a round that moves takes a character, and
after one that does not there is no other.
-/

namespace Abnf.Regex

variable {round : Place → List Place} {lazy : Bool} {n m least : Nat} {last most : Option Nat}
  {p q : Place}

/-! ## The list of ways -/

/-- Where so many rounds end. -/
def timesWays (round : Place → List Place) : Nat → Place → List Place
  | 0, p => [p]
  | n + 1, p => (round p).flatMap (timesWays round n)

/-- Where up to so many rounds more end. -/
def upToWays (round : Place → List Place) (lazy : Bool) : Nat → Option Nat → Place → List Place
  | 0, _, p => [p]
  | n + 1, last, p =>
    if last = some p.index then [p]
    else if lazy then p :: (round p).flatMap (upToWays round lazy n (some p.index))
    else (round p).flatMap (upToWays round lazy n (some p.index)) ++ [p]

/-- Where from `least` to `most` rounds end. -/
def roundsWays (round : Place → List Place) (lazy : Bool) (least : Nat) (most : Option Nat)
    (p : Place) : List Place :=
  (timesWays round least p).flatMap fun q =>
    upToWays round lazy (Attempt.spare least most q) none q

/-- Where a look around ends, given where its body first ends. -/
def lookWays (p : Place) (negated : Bool) : Option Place → List Place
  | some q => if negated then [] else [{ p with captures := q.captures }]
  | none => if negated then [p] else []

/-- Where an expression can end, in the order in which its ways are tried. -/
def Node.ways : Node → Place → List Place
  | .empty, p => [p]
  | .char rule code, p => (p.take? fun c => rule.alike code c.toNat).toList
  | .any newline, p => (p.take? fun c => newline || c ≠ '\n').toList
  | .set rule chars, p => (p.take? (chars.holds rule)).toList
  | .anchor asked, p => if p.satisfies asked then [p] else []
  | .again rule group, p =>
    ((p.captured? group).bind (p.takeAll? fun c d => rule.fold c.toNat = rule.fold d.toNat)).toList
  | .ifTaken group yes no, p => if p.hasTaken group then yes.ways p else no.ways p
  | .seq a b, p => (a.ways p).flatMap b.ways
  | .alt a b, p => a.ways p ++ b.ways p
  | .capture group body, p => (body.ways (p.reopen group)).map (·.record group p)
  | .iterate lazy least most body, p => roundsWays body.ways lazy least most p
  | .atomic body, p => (body.ways p).head?.toList
  | .ahead negated body, p => lookWays p negated (body.ways p).head?
  | .behind negated width body, p =>
    lookWays p negated ((p.back? width).bind fun q => (body.ways q).head?)

/-! ## Matching is a search through the ways -/

theorem findSome?_flatMap {α β γ : Type} (l : List α) (f : α → List β) (k : β → Option γ) :
    (l.flatMap f).findSome? k = l.findSome? fun a => (f a).findSome? k := by
  induction l with
  | nil => rfl
  | cons a l ih =>
    rw [List.flatMap_cons, List.findSome?_append, ih, List.findSome?_cons]
    cases (f a).findSome? k <;> rfl

theorem findSome?_toList {α β : Type} (o : Option α) (k : α → Option β) :
    o.toList.findSome? k = o.bind k := by
  cases o <;> simp

theorem findSome?_some {α : Type} (l : List α) : l.findSome? some = l.head? := by
  cases l <;> rfl

section

variable {attempt : Attempt} (h : ∀ p k, attempt p k = (round p).findSome? k)

include h

theorem times_eq (n : Nat) (p : Place) (k : Place → Option Place) :
    Attempt.times attempt n p k = (timesWays round n p).findSome? k := by
  induction n generalizing p with
  | zero => simp [Attempt.times, timesWays]
  | succ n ih => simp only [Attempt.times, timesWays, h, ih, findSome?_flatMap]

theorem upTo_eq (lazy : Bool) (n : Nat) (last : Option Nat) (p : Place)
    (k : Place → Option Place) :
    Attempt.upTo attempt lazy n last p k = (upToWays round lazy n last p).findSome? k := by
  induction n generalizing last p with
  | zero => simp [Attempt.upTo, upToWays]
  | succ n ih =>
    simp only [Attempt.upTo, upToWays]
    split
    · simp
    · split
      · rw [List.findSome?_cons, h, findSome?_flatMap]
        simp only [ih]
        cases k p <;> rfl
      · rw [List.findSome?_append, h, findSome?_flatMap]
        simp only [ih]
        cases (round p).findSome? _ <;> simp

theorem rounds_eq (lazy : Bool) (least : Nat) (most : Option Nat) (p : Place)
    (k : Place → Option Place) :
    Attempt.rounds attempt lazy least most p k =
    (roundsWays round lazy least most p).findSome? k := by
  simp only [Attempt.rounds, roundsWays, times_eq h, upTo_eq h, findSome?_flatMap]

end

/-- Matching takes the first of the ways from which what follows succeeds. -/
theorem Node.attempt_eq (node : Node) (p : Place) (k : Place → Option Place) :
    node.attempt p k = (node.ways p).findSome? k := by
  -- a case for each node; only a repetition needs more than its definition
  induction node generalizing p k with
  | empty => simp [attempt, ways]
  | char | any | set | again => rw [attempt, ways, findSome?_toList]
  | anchor asked =>
    simp only [attempt, ways]
    split <;> simp
  | ifTaken group yes no ihyes ihno =>
    simp only [attempt, ways]
    split
    · exact ihyes p k
    · exact ihno p k
  | seq a b iha ihb => simp only [attempt, ways, iha, ihb, findSome?_flatMap]
  | alt a b iha ihb =>
    simp only [attempt, ways, iha, ihb, List.findSome?_append]
    cases (a.ways p).findSome? k <;> rfl
  | capture group body ih => simp only [attempt, ways, ih, List.findSome?_map]; rfl
  | iterate lazy least most body ih => exact rounds_eq ih lazy least most p k
  | atomic body ih => simp only [attempt, ways, findSome?_toList, ih, findSome?_some]
  | ahead negated body ih =>
    simp only [attempt, ways, ih, findSome?_some]
    cases (body.ways p).head? <;> cases negated <;> simp [lookWays]
  | behind negated width body ih =>
    simp only [attempt, ways, ih, findSome?_some]
    cases (p.back? width).bind fun q => (body.ways q).head? <;> cases negated <;> simp [lookWays]

/-! ## Ways lead forward -/

/-- A later place, and the text between. -/
structure Place.Moves (u : List Char) (p q : Place) : Prop where
  after : p.after = u ++ q.after
  before : q.before = u.reverse ++ p.before

namespace Place.Moves

variable {r : Place} {u v : List Char}

theorem refl (h : q.after = p.after) (h' : q.before = p.before) : Moves [] p q :=
  ⟨h.symm, h'⟩

theorem trans (h : Moves u p q) (h' : Moves v q r) : Moves (u ++ v) p r where
  after := by rw [h.after, h'.after, List.append_assoc]
  before := by rw [h'.before, h.before, List.reverse_append, List.append_assoc]

theorem index (h : Moves u p q) : q.index = p.index + u.length := by
  rw [Place.index, h.before, List.length_append, List.length_reverse, Place.index]
  omega

theorem upTo_eq (h : Moves u p q) : p.upTo q = u := by
  have hlength : q.index - p.index = u.length := by
    rw [h.index]
    omega
  rw [Place.upTo, h.after, hlength, List.take_left]

theorem length_after (h : Moves u p q) : p.after.length = u.length + q.after.length := by
  rw [h.after, List.length_append]

end Place.Moves

/-- A list of ways that lead forward. -/
def Forward (round : Place → List Place) : Prop := ∀ p q, q ∈ round p → ∃ u, p.Moves u q

theorem Place.moves_of_take? {wanted : Char → Bool} (h : p.take? wanted = some q) :
    ∃ c, wanted c ∧ p.Moves [c] q ∧ q.captures = p.captures := by
  unfold take? at h
  split at h
  · cases h
  · rename_i c rest hafter
    split at h
    · rename_i hc
      cases h
      exact ⟨c, hc, ⟨hafter, rfl⟩, rfl⟩
    · cases h

theorem Place.moves_of_takeAll? {wanted : Char → Char → Bool} :
    ∀ {cs : List Char} {p : Place}, p.takeAll? wanted cs = some q → ∃ u, p.Moves u q
  | [], p, h => by
      cases h
      exact ⟨[], .refl rfl rfl⟩
  | c :: cs, p, h => by
      rw [takeAll?, Option.bind_eq_some_iff] at h
      obtain ⟨mid, hmid, h⟩ := h
      obtain ⟨d, -, hd, -⟩ := moves_of_take? hmid
      obtain ⟨u, hu⟩ := moves_of_takeAll? h
      exact ⟨_, hd.trans hu⟩

theorem forward_timesWays (h : Forward round) (n : Nat) : Forward (timesWays round n) := by
  induction n with
  | zero =>
    intro p q hq
    obtain rfl := List.mem_singleton.mp hq
    exact ⟨[], .refl rfl rfl⟩
  | succ n ih =>
    intro p q hq
    obtain ⟨mid, hmid, hq⟩ := List.mem_flatMap.mp hq
    obtain ⟨u, hu⟩ := h _ _ hmid
    obtain ⟨v, hv⟩ := ih _ _ hq
    exact ⟨_, hu.trans hv⟩

/--
What it is to be reached in up to so many rounds: to be there, or to be reached after a round.
-/
theorem mem_upToWays_succ : q ∈ upToWays round lazy (n + 1) last p ↔
    q = p ∨ last ≠ some p.index ∧
    ∃ mid ∈ round p, q ∈ upToWays round lazy n (some p.index) mid := by
  rw [upToWays]
  split
  · simp_all
  · split <;> simp_all [or_comm]

theorem forward_upToWays (h : Forward round) (lazy : Bool) (n : Nat) (last : Option Nat) :
    Forward (upToWays round lazy n last) := by
  induction n generalizing last with
  | zero =>
    intro p q hq
    obtain rfl := List.mem_singleton.mp hq
    exact ⟨[], .refl rfl rfl⟩
  | succ n ih =>
    intro p q hq
    rcases mem_upToWays_succ.mp hq with rfl | ⟨-, mid, hmid, hq⟩
    · exact ⟨[], .refl rfl rfl⟩
    · obtain ⟨u, hu⟩ := h _ _ hmid
      obtain ⟨v, hv⟩ := ih _ _ _ hq
      exact ⟨_, hu.trans hv⟩

theorem forward_lookWays (negated : Bool) (found : Place → Option Place) :
    Forward fun p => lookWays p negated (found p) := by
  intro p q hq
  refine ⟨[], ?_⟩
  simp only [lookWays] at hq
  split at hq <;> split at hq <;> simp_all [Place.Moves.refl]

/-- Every way of an expression leads forward. -/
theorem Node.forward (node : Node) : Forward node.ways := by
  induction node with
  | empty =>
    intro p q hq
    obtain rfl := List.mem_singleton.mp hq
    exact ⟨[], .refl rfl rfl⟩
  | char | any | set =>
    intro p q hq
    obtain ⟨c, -, hc, -⟩ := Place.moves_of_take? (Option.mem_toList.mp hq)
    exact ⟨_, hc⟩
  | anchor asked =>
    intro p q hq
    simp only [ways] at hq
    split at hq <;> simp_all
    exact ⟨[], .refl rfl rfl⟩
  | again rule group =>
    intro p q hq
    obtain ⟨_, -, h⟩ := Option.bind_eq_some_iff.mp (Option.mem_toList.mp hq)
    exact Place.moves_of_takeAll? h
  | ifTaken group yes no ihyes ihno =>
    intro p q hq
    rw [ways] at hq
    split at hq
    · exact ihyes p q hq
    · exact ihno p q hq
  | seq a b iha ihb =>
    intro p q hq
    obtain ⟨mid, hmid, hq⟩ := List.mem_flatMap.mp hq
    obtain ⟨u, hu⟩ := iha _ _ hmid
    obtain ⟨v, hv⟩ := ihb _ _ hq
    exact ⟨_, hu.trans hv⟩
  | alt a b iha ihb =>
    intro p q hq
    exact (List.mem_append.mp hq).elim (iha p q) (ihb p q)
  | capture group body ih =>
    intro p q hq
    obtain ⟨mid, hmid, rfl⟩ := List.mem_map.mp hq
    -- to open and to close a group changes what groups have taken, and no place
    obtain ⟨u, hu⟩ := ih _ _ hmid
    exact ⟨u, hu.after, hu.before⟩
  | iterate lazy least most body ih =>
    intro p q hq
    obtain ⟨mid, hmid, hq⟩ := List.mem_flatMap.mp hq
    obtain ⟨u, hu⟩ := forward_timesWays ih least _ _ hmid
    obtain ⟨v, hv⟩ := forward_upToWays ih lazy _ none _ _ hq
    exact ⟨_, hu.trans hv⟩
  | atomic body ih =>
    intro p q hq
    exact ih p q (List.mem_of_mem_head? (Option.mem_toList.mp hq))
  | ahead negated body => exact forward_lookWays negated fun p => (body.ways p).head?
  | behind negated width body =>
    exact forward_lookWays negated fun p => (p.back? width).bind fun q => (body.ways q).head?

/-! ## The bound on rounds -/

/-- After a round that took nothing there is no other. -/
theorem upToWays_stop (h : last = some p.index) : upToWays round lazy n last p = [p] := by
  cases n with
  | zero => rfl
  | succ n => rw [upToWays, if_pos h]

/-- Any bound that exceeds the characters left is as good as another. -/
theorem upToWays_eq (h : Forward round) (lazy : Bool) :
    ∀ (n m : Nat) (last : Option Nat) (p : Place), p.after.length < n → p.after.length < m →
      upToWays round lazy n last p = upToWays round lazy m last p
  | 0, _, _, _, hn, _ => absurd hn (Nat.not_lt_zero _)
  | _ + 1, 0, _, _, _, hm => absurd hm (Nat.not_lt_zero _)
  | n + 1, m + 1, last, p, hn, hm => by
      -- a round that took something leaves fewer characters, one that did not stops in any case
      have hround : (round p).flatMap (upToWays round lazy n (some p.index)) =
          (round p).flatMap (upToWays round lazy m (some p.index)) := by
        rw [List.flatMap_def, List.flatMap_def]
        congr 1
        refine List.map_congr_left fun mid hmid => ?_
        obtain ⟨u, hu⟩ := h _ _ hmid
        have hindex := hu.index
        have hlength := hu.length_after
        cases u with
        | nil =>
          have hstop : some p.index = some mid.index := by simp [hindex]
          rw [upToWays_stop hstop, upToWays_stop hstop]
        | cons c u =>
          rw [List.length_cons] at hlength
          exact upToWays_eq h lazy n m _ _ (by omega) (by omega)
      rw [upToWays, upToWays, hround]

/-- A pattern matches a whole text if one of its ways leads to the end. -/
theorem Pattern.fullMatch?_isSome_iff (pattern : Pattern) (text : List Char) :
    (pattern.fullMatch? text).isSome ↔ ∃ q ∈ pattern.node.ways (.start text), q.after = [] := by
  rw [fullMatch?, Option.isSome_map, fullEnd?, Node.attempt_eq, List.findSome?_isSome_iff]
  refine exists_congr fun q => and_congr_right fun _ => ?_
  split <;> simp_all

end Abnf.Regex
