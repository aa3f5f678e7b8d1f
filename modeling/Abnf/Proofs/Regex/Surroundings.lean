import Abnf.Proofs.Regex.Ways

/-!
# What stands around an expression

An expression that has no anchors and does not look around is moved by nothing outside of the text
that it takes. This is said from both sides. A text in front of it, which other groups have been
taken from, does not change its ways, if its own groups are numbered on from those (`Shifts.ways`).
A text behind it adds ways that go on into that text and leaves the others
(`Node.mem_ways_extend`), unless a part is kept as it first matched: that part would have
been matched in another way had the text ended earlier.
-/

namespace Abnf.Regex

variable {k m n : Nat} {a b node : Node} {p q earlier : Place} {rest u : List Char}

namespace Node

/-- Whether a node has an anchor or looks ahead or behind. -/
def looksAround : Node → Bool
  | .anchor _ | .ahead _ _ | .behind _ _ _ => true
  | .seq a b | .alt a b | .ifTaken _ a b => a.looksAround || b.looksAround
  | .capture _ body | .iterate _ _ _ body | .atomic body => body.looksAround
  | _ => false

end Node

/-! ## Groups under other numbers -/

/-- The same node, with its groups from 1 to `n` under numbers that are `k` higher. -/
inductive Shifts (k n : Nat) : Node → Node → Prop where
  | empty : Shifts k n .empty .empty
  | char (rule : CaseRule) (code : Nat) : Shifts k n (.char rule code) (.char rule code)
  | any (newline : Bool) : Shifts k n (.any newline) (.any newline)
  | set (rule : CaseRule) (set : CharSet) : Shifts k n (.set rule set) (.set rule set)
  | anchor (anchor : Anchor) : Shifts k n (.anchor anchor) (.anchor anchor)
  | again {g : Nat} (rule : CaseRule) (hpos : 0 < g) (hle : g ≤ n) :
      Shifts k n (.again rule g) (.again rule (g + k))
  | ifTaken {g : Nat} {a a' b b' : Node} (hpos : 0 < g) (ha : Shifts k n a a')
      (hb : Shifts k n b b') : Shifts k n (.ifTaken g a b) (.ifTaken (g + k) a' b')
  | seq {a a' b b' : Node} (ha : Shifts k n a a') (hb : Shifts k n b b') :
      Shifts k n (.seq a b) (.seq a' b')
  | alt {a a' b b' : Node} (ha : Shifts k n a a') (hb : Shifts k n b b') :
      Shifts k n (.alt a b) (.alt a' b')
  | capture {g : Nat} {a a' : Node} (hpos : 0 < g) (hle : g ≤ n) (ha : Shifts k n a a') :
      Shifts k n (.capture g a) (.capture (g + k) a')
  | iterate {a a' : Node} (lazy : Bool) (least : Nat) (most : Option Nat) (ha : Shifts k n a a') :
      Shifts k n (.iterate lazy least most a) (.iterate lazy least most a')
  | atomic {a a' : Node} (ha : Shifts k n a a') : Shifts k n (.atomic a) (.atomic a')
  | ahead {a a' : Node} (negated : Bool) (ha : Shifts k n a a') :
      Shifts k n (.ahead negated a) (.ahead negated a')
  | behind {a a' : Node} (negated : Bool) (width : Nat) (ha : Shifts k n a a') :
      Shifts k n (.behind negated width a) (.behind negated width a')

namespace Shifts

/-- Numbered on from nothing, a node is itself. -/
theorem eq_of_zero (h : Shifts 0 n a b) : b = a := by
  induction h with
  | empty | char | any | set | anchor | again => rfl
  | ifTaken _ _ _ iha ihb => rw [iha, ihb, Nat.add_zero]
  | seq _ _ iha ihb | alt _ _ iha ihb => rw [iha, ihb]
  | capture _ _ _ ih => rw [ih, Nat.add_zero]
  | iterate _ _ _ _ ih | atomic _ ih | ahead _ _ ih | behind _ _ _ ih => rw [ih]

/-- A node takes as much as before, if its groups do. -/
theorem span {spans spans' : Nat → Span} (h : Shifts k n a b)
    (hspans : ∀ g, 0 < g → spans' (g + k) = spans g) : b.span spans' = a.span spans := by
  induction h with
  | empty | char | any | set | anchor | ahead | behind => rfl
  | again _ hpos => exact hspans _ hpos
  | seq _ _ iha ihb | alt _ _ iha ihb | ifTaken _ _ _ iha ihb =>
    rw [Node.span, Node.span, iha, ihb]
  | capture _ _ _ ih | iterate _ _ _ _ ih | atomic _ ih => rw [Node.span, Node.span, ih]

end Shifts

/-! ## A text in front -/

namespace Place

/-- What a group has taken in a text, where so many characters and groups stand before the text. -/
def later (k characters : Nat) (capture : Nat × Taken) : Nat × Taken :=
  (capture.1 + k, { capture.2 with stop := capture.2.stop + characters })

/-- A place of a text that stands behind an earlier place, where there were `k` groups. -/
def past (p earlier : Place) (k : Nat) : Place where
  before := p.before ++ earlier.before
  after := p.after
  captures := p.captures.map (later k earlier.index) ++ earlier.captures

/-- More characters have been passed. -/
theorem index_past : (p.past earlier k).index = p.index + earlier.index := by
  rw [past, index, List.length_append, index, index]

/-- What comes next does not depend on what came before. -/
theorem take?_past (wanted : Char → Bool) :
    (p.past earlier k).take? wanted = (p.take? wanted).map (·.past earlier k) := by
  simp only [take?, past]
  split
  · rfl
  · split <;> rfl

theorem takeAll?_past (wanted : Char → Char → Bool) (cs : List Char) :
    (p.past earlier k).takeAll? wanted cs = (p.takeAll? wanted cs).map (·.past earlier k) := by
  induction cs generalizing p with
  | nil => rfl
  | cons c cs ih =>
    rw [takeAll?, takeAll?, take?_past]
    cases p.take? (wanted c) with
    | none => rfl
    | some q => exact ih

/-- The groups of a text in front have low numbers. -/
def Below (earlier : Place) (k : Nat) : Prop := ∀ taken ∈ earlier.captures, taken.1 ≤ k

/-- A group is found under its new number, and ends later. -/
theorem lookup_map_later (captures : List (Nat × Taken)) (n g : Nat) :
    (captures.map (later k n)).lookup (g + k) =
      (captures.lookup g).map fun taken => { taken with stop := taken.stop + n } := by
  induction captures with
  | nil => rfl
  | cons capture captures ih =>
    have hsame : (g + k == (later k n capture).1) = (g == capture.1) := by
      rw [Bool.eq_iff_iff, beq_iff_eq, beq_iff_eq]
      exact Nat.add_right_cancel_iff
    rw [List.map_cons, List.lookup_cons, List.lookup_cons, ih, hsame]
    split <;> rfl

/-- The captures of the earlier text are not those of a group that is numbered on. -/
theorem Below.ne (h : earlier.Below k) {g : Nat} (hpos : 0 < g) :
    ∀ taken ∈ earlier.captures, taken.1 ≠ g + k := by
  intro taken htaken
  have := h taken htaken
  omega

/--
The groups of what came before have other numbers, and are not found for those of the expression.
-/
theorem lookup_past (h : earlier.Below k) {g : Nat} (hpos : 0 < g) :
    (p.past earlier k).captures.lookup (g + k) =
      (p.captures.lookup g).map fun taken => { taken with stop := taken.stop + earlier.index } := by
  have hnone : earlier.captures.lookup (g + k) = none :=
    List.lookup_eq_none_iff.mpr fun taken htaken => bne_iff_ne.mpr (h.ne hpos taken htaken).symm
  rw [past, List.lookup_append, hnone, Option.or_none, lookup_map_later]

/-- A group has taken the same text. -/
theorem captured?_past (h : earlier.Below k) {g : Nat} (hpos : 0 < g) :
    (p.past earlier k).captured? (g + k) = p.captured? g := by
  rw [captured?, captured?, lookup_past h hpos, Option.map_map]
  rfl

/-- It has taken part if it did. -/
theorem hasTaken_past (h : earlier.Below k) {g : Nat} (hpos : 0 < g) :
    (p.past earlier k).hasTaken (g + k) = p.hasTaken g := by
  rw [hasTaken, hasTaken, lookup_past h hpos, Option.isSome_map]

/-- Where groups are numbered on, what is kept of captures is the same. -/
theorem filter_past {keeps keeps' : Nat × Taken → Bool}
    (hsame : ∀ capture, keeps' (later k earlier.index capture) = keeps capture)
    (hearlier : ∀ capture ∈ earlier.captures, keeps' capture = true) :
    (p.past earlier k).captures.filter keeps' =
      (p.captures.filter keeps).map (later k earlier.index) ++ earlier.captures := by
  rw [past, List.filter_append, List.filter_map, List.filter_eq_self.mpr hearlier]
  congr 2
  exact List.filter_congr fun capture _ => hsame capture

/-- It opens again in the same way. -/
theorem reopen_past (h : earlier.Below k) {g : Nat} (hpos : 0 < g) :
    (p.past earlier k).reopen (g + k) = (p.reopen g).past earlier k := by
  have hcaptures := @filter_past k p earlier (fun c => c.1 ≠ g || p.index ≤ c.2.stop)
    (fun c => c.1 ≠ g + k || (p.past earlier k).index ≤ c.2.stop)
    (fun capture => by simp [later, index_past])
    (fun capture hcapture => by simp [h.ne hpos capture hcapture])
  exact congrArg (Place.mk _ _) hcaptures

/-- What it takes is kept under its new number. -/
theorem record_past (h : earlier.Below k) {g : Nat} (hpos : 0 < g) :
    (q.past earlier k).record (g + k) (p.past earlier k) = (q.record g p).past earlier k := by
  have hcaptures := @filter_past k q earlier (·.1 ≠ g) (·.1 ≠ g + k)
    (fun capture => by simp [later])
    (fun capture hcapture => decide_eq_true (h.ne hpos capture hcapture))
  have htaken : (p.past earlier k).upTo (q.past earlier k) = p.upTo q := by
    rw [upTo, upTo, index_past, index_past, Nat.add_sub_add_right]
    rfl
  rw [record, hcaptures, htaken, index_past]
  rfl

end Place

section

variable {round round' : Place → List Place}
  (h : ∀ p, round' (p.past earlier k) = (round p).map (·.past earlier k))

include h

/-- Rounds come out as before, if one round does. -/
theorem timesWays_past (n : Nat) (p : Place) :
    timesWays round' n (p.past earlier k) = (timesWays round n p).map (·.past earlier k) := by
  induction n generalizing p with
  | zero => rfl
  | succ n ih => simp only [timesWays, h, List.flatMap_map, List.map_flatMap, ih]

/-- So do those beyond the least number, where it matters from where the last of them started. -/
theorem upToWays_past (lazy : Bool) (n : Nat) (last : Option Nat) (p : Place) :
    upToWays round' lazy n (last.map (· + earlier.index)) (p.past earlier k) =
      (upToWays round lazy n last p).map (·.past earlier k) := by
  induction n generalizing last p with
  | zero => rfl
  | succ n ih =>
    have hlast : last.map (· + earlier.index) = some (p.past earlier k).index ↔
        last = some p.index := by
      rw [Place.index_past]
      cases last <;> simp
    -- the ways from a place are those of the shifted place, and so are the ways from where they end
    have hround : (round' (p.past earlier k)).flatMap
        (upToWays round' lazy n (some (p.past earlier k).index)) =
          ((round p).flatMap (upToWays round lazy n (some p.index))).map (·.past earlier k) := by
      have hindex : some (p.past earlier k).index = (some p.index).map (· + earlier.index) := by
        rw [Place.index_past, Option.map_some]
      simp only [h, hindex, List.flatMap_map, List.map_flatMap, ih]
    rw [upToWays, upToWays, hround]
    simp only [hlast]
    split
    · rfl
    · split <;> simp

/-- So does a whole repeat. -/
theorem roundsWays_past (lazy : Bool) (least : Nat) (most : Option Nat) (p : Place) :
    roundsWays round' lazy least most (p.past earlier k) =
      (roundsWays round lazy least most p).map (·.past earlier k) := by
  simp only [roundsWays, timesWays_past h, List.flatMap_map, List.map_flatMap]
  congr 1
  funext q
  exact upToWays_past h lazy _ none q

end

/-- A text in front does not change the ways of a node whose groups are numbered on. -/
theorem Shifts.ways (h : Shifts k n a b) (hlook : a.looksAround = false) (hbelow : earlier.Below k)
    (p : Place) : b.ways (p.past earlier k) = (a.ways p).map (·.past earlier k) := by
  induction h generalizing p with
  | empty => rfl
  | char | any | set => simp only [Node.ways, Place.take?_past, Option.toList_map]
  -- what looks around sees what came before, so nothing is said of it
  | anchor | ahead | behind => cases hlook
  | again rule hpos =>
    simp only [Node.ways, Place.captured?_past hbelow hpos]
    cases p.captured? _ with
    | none => rfl
    | some taken => simp only [Option.bind_some, Place.takeAll?_past, Option.toList_map]
  | ifTaken hpos _ _ iha ihb =>
    obtain ⟨hla, hlb⟩ := Bool.or_eq_false_iff.mp hlook
    rw [Node.ways, Node.ways, Place.hasTaken_past hbelow hpos]
    split
    · exact iha hla p
    · exact ihb hlb p
  | seq _ _ iha ihb =>
    obtain ⟨hla, hlb⟩ := Bool.or_eq_false_iff.mp hlook
    simp only [Node.ways, iha hla, ihb hlb, List.flatMap_map, List.map_flatMap]
  | alt _ _ iha ihb =>
    obtain ⟨hla, hlb⟩ := Bool.or_eq_false_iff.mp hlook
    rw [Node.ways, Node.ways, iha hla, ihb hlb, List.map_append]
  | capture hpos _ _ ih =>
    rw [Node.ways, Node.ways, Place.reopen_past hbelow hpos, ih hlook, List.map_map, List.map_map]
    congr 1
    funext q
    exact Place.record_past hbelow hpos
  | iterate lazy least most _ ih => exact roundsWays_past (ih hlook) lazy least most p
  | atomic _ ih =>
    rw [Node.ways, Node.ways, ih hlook, List.head?_map, Option.toList_map]

/-! ## A text behind -/

namespace Place

/-- A place of a text that goes on. -/
def extend (p : Place) (rest : List Char) : Place := { p with after := p.after ++ rest }

theorem extend_inj : q.extend rest = p.extend rest ↔ q = p := by
  cases p
  cases q
  simp [extend]

/-- A text that goes on is moved through in the same way. -/
theorem Moves.extend (h : p.Moves u q) : (p.extend rest).Moves u (q.extend rest) where
  after := by rw [Place.extend, h.after, List.append_assoc]; rfl
  before := h.before

/-- What comes before a place outside of the added text is such a place itself. -/
theorem Moves.exists_extend (h : p.Moves u (q.extend rest)) :
    ∃ mid : Place, p = mid.extend rest := by
  refine ⟨{ p with after := u ++ q.after }, ?_⟩
  have hafter : p.after = u ++ q.after ++ rest := by rw [h.after, List.append_assoc]; rfl
  rw [Place.extend, ← hafter]

end Place

/-- A search that finds the same ways in a text that goes on, but for those that go on with it. -/
def Extends (rest : List Char) (round : Place → List Place) : Prop :=
  ∀ p q, q.extend rest ∈ round (p.extend rest) ↔ q ∈ round p

section

variable {f round : Place → List Place}

/-- One search after another, in a text that goes on. -/
theorem exists_mem_extend (hround : Extends rest round) (hforward : Forward f)
    (h : ∀ mid, q.extend rest ∈ f (mid.extend rest) ↔ q ∈ f mid) :
    (∃ mid ∈ round (p.extend rest), q.extend rest ∈ f mid) ↔ ∃ mid ∈ round p, q ∈ f mid := by
  constructor
  · rintro ⟨later, hlater, hq⟩
    obtain ⟨u, hu⟩ := hforward _ _ hq
    obtain ⟨mid, rfl⟩ := hu.exists_extend
    exact ⟨mid, (hround _ _).mp hlater, (h mid).mp hq⟩
  · rintro ⟨mid, hmid, hq⟩
    exact ⟨mid.extend rest, (hround _ _).mpr hmid, (h mid).mpr hq⟩

variable (hforward : Forward round)

include hforward

/-- Rounds find the same ways. -/
theorem Extends.timesWays (hround : Extends rest round) (n : Nat) :
    Extends rest (timesWays round n) := by
  induction n with
  | zero =>
    intro p q
    simp only [Regex.timesWays, List.mem_singleton, Place.extend_inj]
  | succ n ih =>
    intro p q
    simp only [Regex.timesWays, List.mem_flatMap]
    exact exists_mem_extend hround (forward_timesWays hforward n) fun mid => ih mid q

/-- So do those beyond the least number. -/
theorem Extends.upToWays (hround : Extends rest round) (lazy : Bool) (n : Nat) (last : Option Nat) :
    Extends rest (upToWays round lazy n last) := by
  induction n generalizing last with
  | zero =>
    intro p q
    simp only [Regex.upToWays, List.mem_singleton, Place.extend_inj]
  | succ n ih =>
    intro p q
    rw [mem_upToWays_succ, mem_upToWays_succ, Place.extend_inj]
    refine or_congr_right (and_congr_right fun _ => ?_)
    exact exists_mem_extend hround (forward_upToWays hforward lazy n _) fun mid => ih _ mid q

/-- More rounds than characters taken are as good as any other number of rounds. -/
theorem mem_upToWays_of_lt (lazy : Bool) (hm : u.length < m) :
    ∀ (n : Nat) (last : Option Nat), p.Moves u q → q ∈ upToWays round lazy n last p →
      q ∈ upToWays round lazy m last p := by
  intro n last hu hq
  -- on the rounds: one that takes something leaves less to go, and one that does not is the last
  induction n generalizing m last p u with
  | zero =>
    obtain rfl := List.mem_singleton.mp hq
    obtain ⟨m, rfl⟩ := Nat.exists_eq_add_one_of_ne_zero (Nat.ne_zero_of_lt hm)
    exact mem_upToWays_succ.mpr (.inl rfl)
  | succ n ih =>
    obtain ⟨m, rfl⟩ := Nat.exists_eq_add_one_of_ne_zero (Nat.ne_zero_of_lt hm)
    rcases mem_upToWays_succ.mp hq with hp | ⟨hlast, mid, hmid, hq⟩
    · exact mem_upToWays_succ.mpr (.inl hp)
    · refine mem_upToWays_succ.mpr (.inr ⟨hlast, mid, hmid, ?_⟩)
      obtain ⟨v, hv⟩ := hforward _ _ hmid
      obtain ⟨w, hw⟩ := forward_upToWays hforward lazy n _ _ _ hq
      have hindex := hu.index
      have hindex' := hv.index
      have hindex'' := hw.index
      by_cases hempty : v.length = 0
      · -- a round that took nothing was the last one
        have hstop : some p.index = some mid.index := by rw [hindex', hempty, Nat.add_zero]
        rw [upToWays_stop hstop] at hq ⊢
        exact hq
      · exact ih (by omega) _ hw hq

/-- More characters to come allow for more rounds, but none of these ends within the text. -/
theorem Extends.roundsWays (hround : Extends rest round) (lazy : Bool) (least : Nat)
    (most : Option Nat) : Extends rest (roundsWays round lazy least most) := by
  intro p q
  simp only [Regex.roundsWays, List.mem_flatMap]
  refine exists_mem_extend (hround.timesWays hforward least)
    (fun mid => forward_upToWays hforward lazy _ none mid) fun mid => ?_
  rw [hround.upToWays hforward lazy _ none mid q]
  -- more text may allow more rounds, but no more than can take something are ever used
  have hspare : Attempt.spare least most (mid.extend rest) = Attempt.spare least most mid ∨
      mid.after.length < Attempt.spare least most mid ∧
        mid.after.length < Attempt.spare least most (mid.extend rest) := by
    have hlength : (mid.extend rest).after.length = mid.after.length + rest.length :=
      List.length_append
    cases most <;> simp only [Attempt.spare, hlength] <;> omega
  rcases hspare with hsame | ⟨hless, hless'⟩
  · rw [hsame]
  · constructor <;> intro hq
    · obtain ⟨u, hu⟩ := forward_upToWays hforward lazy _ _ _ _ hq
      have := hu.length_after
      exact mem_upToWays_of_lt hforward lazy (by omega) _ _ hu hq
    · obtain ⟨u, hu⟩ := forward_upToWays hforward lazy _ _ _ _ hq
      have := hu.length_after
      exact mem_upToWays_of_lt hforward lazy (by omega) _ _ hu hq

end

section

variable {round : Place → List Place} (h : ∀ p q, q ∈ round p → p.Below n → q.Below n)

include h

end

end Abnf.Regex
