import Abnf.Cursor.Request
import Abnf.Proofs.Outcome
import Abnf.Proofs.Regex.Denotes

/-!
# What a cursor does when it is asked one thing after another

A parser asks a cursor for literals, patterns and repeated patterns in any order, and relies on a
failed try to leave the cursor in place. Every request that takes something moves the cursor over
what it took, and every other request moves it nowhere (`ask?_advances`). From this step the whole
run follows: the cursor stays in its text, never goes back, and what was taken on the way, put
together, is the stretch of text between the start and the end of the run (`afterAll_keeps`).
-/

namespace Abnf.Cursor

open Regex

variable {c d e : Cursor} {u v text : List Char} {request : Request} {argument : Datum}
  {requests : List (Request × Datum)} {pattern : Pattern}

/-! ## Moving on -/

/-- A cursor further on in the same text, and the text between. -/
structure Advances (u : List Char) (c d : Cursor) : Prop where
  after : c.after = u ++ d.after
  before : d.before = u.reverse ++ c.before

/-- The characters of a text from one position up to another. -/
def slice (text : List Char) (first last : Nat) : List Char := (text.drop first).take (last - first)

namespace Advances

theorem refl (c : Cursor) : Advances [] c c := ⟨rfl, rfl⟩

theorem trans (h : Advances u c d) (h' : Advances v d e) : Advances (u ++ v) c e where
  after := by rw [h.after, h'.after, List.append_assoc]
  before := by rw [h'.before, h.before, List.reverse_append, List.append_assoc]

theorem text_eq (h : Advances u c d) : d.text = c.text := by
  simp only [text, h.before, h.after, List.reverse_append, List.reverse_reverse, List.append_assoc]

theorem position_eq (h : Advances u c d) : d.position = c.position + u.length := by
  have hlength := congrArg List.length h.before
  rw [List.length_append, List.length_reverse] at hlength
  rw [position, position]
  omega

/-- Where the cursors stand tells what is between them. -/
theorem slice_eq (h : Advances u c d) : slice c.text c.position d.position = u := by
  have hlength : d.position - c.position = u.length := by
    rw [h.position_eq]
    omega
  have hdrop : c.text.drop c.position = u ++ d.after := by
    rw [text, h.after, position]
    exact List.drop_left' List.length_reverse
  rw [slice, hdrop, hlength, List.take_left]

theorem upTo_eq (h : Advances u c d) : c.upTo d = u := by
  have hlength : d.position - c.position = u.length := by
    rw [h.position_eq]
    omega
  rw [upTo, h.after, hlength, List.take_left]

end Advances

theorem position_le_length (c : Cursor) : c.position ≤ c.text.length := by
  rw [position, text, List.length_append, List.length_reverse]
  omega

/-- Going on by some characters that are there passes exactly these. -/
theorem advances_advance (u : List Char) (h : c.after = u ++ v) :
    Advances u c (advance u.length c) := by
  induction u generalizing c with
  | nil => exact .refl c
  | cons char u ih =>
    have hnext : c.next? = some ⟨char :: c.before, u ++ v⟩ := by
      rw [next?, h]
      rfl
    have hrest : Advances u ⟨char :: c.before, u ++ v⟩
        (advance u.length ⟨char :: c.before, u ++ v⟩) := ih rfl
    have hfirst : Advances [char] c ⟨char :: c.before, u ++ v⟩ := ⟨h, rfl⟩
    rw [List.length_cons, advance, hnext]
    exact hfirst.trans hrest

/-! ## One try -/

theorem literal?_advances (h : c.literal? u = some d) : Advances u c d := by
  unfold literal? at h
  split at h
  · rename_i hprefix
    obtain ⟨v, hv⟩ := List.isPrefixOf_iff_prefix.mp hprefix
    cases h
    exact advances_advance u hv.symm
  · cases h

/-- The end of a match lies ahead of its start, whatever the pattern looks at on the way. -/
theorem advances_of_end? {q : Place} (h : pattern.end? c.place = some q) :
    Advances (c.place.upTo q) c ⟨q.before, q.after⟩ := by
  rw [Pattern.end?, Node.attempt_eq, findSome?_some] at h
  obtain ⟨u, hu⟩ := pattern.node.forward _ _ (List.mem_of_mem_head? h)
  rw [hu.upTo_eq]
  exact ⟨hu.after, hu.before⟩

theorem behind?_advances (h : c.behind? pattern = some d) : ∃ u, Advances u c d := by
  obtain ⟨q, hq, rfl⟩ := Option.map_eq_some_iff.mp h
  exact ⟨_, advances_of_end? hq⟩

theorem match?_advances {found : Match} (h : c.match? pattern = some (found, d)) :
    Advances found.whole c d := by
  obtain ⟨q, hq, heq⟩ := Option.map_eq_some_iff.mp h
  cases heq
  exact advances_of_end? hq

/-- A pattern takes a word of its language, or nothing if none is to come. -/
theorem match?_cases {L : Language Char} (h : Denotes pattern.node L) (c : Cursor) :
    (c.match? pattern = none ∧ ∀ u ∈ L, ¬ u <+: c.after) ∨
      ∃ found d, c.match? pattern = some (found, d) ∧ found.whole ∈ L ∧
        Advances found.whole c d := by
  cases hend : pattern.end? c.place with
  | none =>
    refine .inl ⟨by rw [match?, hend]; rfl, ?_⟩
    rintro u hu ⟨v, hafter⟩
    have hmoves : c.place.Moves u ⟨u.reverse ++ c.before, v, c.place.captures⟩ :=
      ⟨hafter.symm, rfl⟩
    -- a text of the language that stands here would be a way to match, and there is none
    have hway := (h _ _).mpr ⟨⟨u, hu, hmoves⟩, rfl⟩
    rw [Pattern.end?, Node.attempt_eq, findSome?_some, List.head?_eq_none_iff] at hend
    exact List.ne_nil_of_mem hway hend
  | some q =>
    refine .inr ⟨pattern.extract c.place q, ⟨q.before, q.after⟩, by rw [match?, hend]; rfl, ?_,
      advances_of_end? hend⟩
    rw [Pattern.end?, Node.attempt_eq, findSome?_some] at hend
    obtain ⟨⟨u, hu, hmoves⟩, -⟩ := (h _ q).mp (List.mem_of_mem_head? hend)
    have hwhole : (pattern.extract c.place q).whole = u := hmoves.upTo_eq
    rwa [hwhole]

/-- Rounds move on one after the other. -/
theorem rounds_advances (pattern : Pattern) (n : Nat) (c : Cursor) :
    ∃ u, Advances u c (rounds pattern n c) := by
  induction n generalizing c with
  | zero => exact ⟨[], .refl c⟩
  | succ n ih =>
    rw [rounds]
    split
    · exact ⟨[], .refl c⟩
    · rename_i d hbehind
      split
      · exact ⟨[], .refl c⟩
      · obtain ⟨u, hu⟩ := behind?_advances hbehind
        obtain ⟨v, hv⟩ := ih d
        exact ⟨u ++ v, hu.trans hv⟩

theorem repeatedly?_advances (h : c.repeatedly? pattern = some (u, d)) : Advances u c d := by
  unfold repeatedly? at h
  dsimp only at h
  split at h
  · cases h
  · obtain ⟨v, hv⟩ := rounds_advances pattern c.after.length c
    cases h
    rwa [hv.upTo_eq]

/-- **A request that takes something moves the cursor over what it took.** -/
theorem ask?_advances {taken : Taken} (h : c.ask? request argument = .ok (some (taken, d))) :
    Advances taken.whole c d := by
  unfold ask? at h
  cases request with
  | literal =>
    dsimp only at h
    split at h
    · rename_i chars
      obtain ⟨e, he, heq⟩ := Option.map_eq_some_iff.mp (Except.ok.inj h)
      cases heq
      exact literal?_advances he
    · cases h
  | pattern =>
    obtain ⟨pattern, -, h⟩ := Except.bind_eq_ok.mp h
    obtain ⟨⟨found, e⟩, he, heq⟩ := Option.map_eq_some_iff.mp (Except.pure_eq_ok.mp h)
    cases heq
    exact match?_advances he
  | repeatedly =>
    obtain ⟨pattern, -, h⟩ := Except.bind_eq_ok.mp h
    obtain ⟨⟨chars, e⟩, he, heq⟩ := Option.map_eq_some_iff.mp (Except.pure_eq_ok.mp h)
    cases heq
    exact repeatedly?_advances he

/-! ## Runs -/

/-- What a request takes, if it takes something. -/
def taken? (c : Cursor) (request : Request) (argument : Datum) : Option (List Char) :=
  match c.ask? request argument with
  | .ok (some (taken, _)) => some taken.whole
  | _ => none

/-- Where a cursor stands after requests in order. -/
def afterAll (c : Cursor) : List (Request × Datum) → Cursor
  | [] => c
  | (request, argument) :: rest => (c.after? request argument).afterAll rest

/-- What requests in order take, put together. -/
def takenAll (c : Cursor) : List (Request × Datum) → List Char
  | [] => []
  | (request, argument) :: rest =>
    (c.taken? request argument).getD [] ++ (c.after? request argument).takenAll rest

/-- A request takes something and the cursor goes on, or it takes nothing and the cursor stays. -/
theorem after?_cases (c : Cursor) (request : Request) (argument : Datum) :
    (∃ taken d, c.ask? request argument = .ok (some (taken, d)) ∧
      c.taken? request argument = some taken.whole ∧ c.after? request argument = d) ∨
    (c.taken? request argument = none ∧ c.after? request argument = c) := by
  rw [taken?, after?]
  cases c.ask? request argument with
  | error fault => exact .inr ⟨rfl, rfl⟩
  | ok answer =>
    cases answer with
    | none => exact .inr ⟨rfl, rfl⟩
    | some taken => exact .inl ⟨taken.1, taken.2, rfl, rfl, rfl⟩

/-- **One step.** Whatever is asked for, the cursor moves over what was taken, or stays. -/
theorem after?_advances (c : Cursor) (request : Request) (argument : Datum) :
    Advances ((c.taken? request argument).getD []) c (c.after? request argument) := by
  rcases after?_cases c request argument with ⟨taken, d, hask, htaken, hafter⟩ | ⟨hnone, hstays⟩
  · rw [htaken, hafter]
    exact ask?_advances hask
  · rw [hnone, hstays]
    exact .refl c

/-- **A whole run.** The cursor moves over all that was taken on the way. -/
theorem afterAll_advances (c : Cursor) (requests : List (Request × Datum)) :
    Advances (c.takenAll requests) c (c.afterAll requests) := by
  induction requests generalizing c with
  | nil => exact .refl c
  | cons asked requests ih =>
    have hstep := after?_advances c asked.1 asked.2
    have hrest := ih (c.after? asked.1 asked.2)
    exact hstep.trans hrest

/-- What a request at a cursor keeps to, in a text. -/
structure Keeps (text : List Char) (c : Cursor) (request : Request) (argument : Datum) : Prop where
  /-- The text is the same before and after. -/
  text_eq : c.text = text ∧ (c.after? request argument).text = text
  /-- The cursor does not go back and does not leave the text. -/
  forward : c.position ≤ (c.after? request argument).position ∧
    (c.after? request argument).position ≤ text.length
  /-- What is answered is what stands between the two positions. -/
  taken : ∀ taken, c.taken? request argument = some taken →
    taken = slice text c.position (c.after? request argument).position
  /-- A request that takes nothing, be it refused or not, leaves the cursor in place. -/
  stays : c.taken? request argument = none → c.after? request argument = c

theorem keeps_of_text (h : c.text = text) (request : Request) (argument : Datum) :
    Keeps text c request argument := by
  have hstep := after?_advances c request argument
  have htext : (c.after? request argument).text = text := hstep.text_eq.trans h
  refine ⟨⟨h, htext⟩, ⟨?_, ?_⟩, ?_, ?_⟩
  · rw [hstep.position_eq]
    omega
  · rw [← htext]
    exact position_le_length _
  · intro taken htaken
    have hslice := hstep.slice_eq
    rw [htaken, Option.getD_some, h] at hslice
    exact hslice.symm
  · intro hnone
    rcases after?_cases c request argument with ⟨taken, d, -, htaken, -⟩ | ⟨-, hstays⟩
    · rw [hnone] at htaken
      cases htaken
    · exact hstays

/-- A cursor can be put at every position of a text. -/
theorem exists_ofData {start : Nat} (h : start ≤ text.length) :
    ∃ c, ofData (.text text) (.int start) = .ok c ∧ c.text = text ∧ c.position = start := by
  have hadvance : Advances (text.take start) (Cursor.start text)
      (advance (text.take start).length (Cursor.start text)) :=
    advances_advance _ (List.take_append_drop start text).symm
  have hlength : (text.take start).length = start := List.length_take_of_le h
  rw [hlength] at hadvance
  refine ⟨advance start (Cursor.start text), ?_, hadvance.text_eq, ?_⟩
  · have hnonneg : ¬ ((start : Int) < 0) := Int.not_lt.mpr (Int.natCast_nonneg start)
    have hat : at? text start = some (advance start (Cursor.start text)) := if_pos h
    simp only [ofData, requireText, bind, Except.bind, if_neg hnonneg, Int.toNat_natCast, hat]
    rfl
  · have hposition := hadvance.position_eq
    rw [hlength] at hposition
    exact hposition.trans (Nat.zero_add start)

/--
**Whatever a cursor is asked, it keeps to its text.** A cursor is put at a position of a text and
asked for literals, patterns and repeated patterns, with arguments of any kind. Every request of the
run keeps to what is said of it in `Keeps`, and in the end all that was taken, put together, is the
text from the first position up to the last.
-/
theorem afterAll_keeps {start : Nat} (h : start ≤ text.length) (requests : List (Request × Datum)) :
    ∃ c, ofData (.text text) (.int start) = .ok c ∧ c.position = start ∧
      (∀ earlier request argument later, requests = earlier ++ (request, argument) :: later →
        Keeps text (c.afterAll earlier) request argument) ∧
      (c.afterAll requests).text = text ∧
      start ≤ (c.afterAll requests).position ∧ (c.afterAll requests).position ≤ text.length ∧
      c.takenAll requests = slice text start (c.afterAll requests).position := by
  obtain ⟨c, hc, htext, hposition⟩ := exists_ofData h
  have hrun := afterAll_advances c requests
  have hend : (c.afterAll requests).text = text := hrun.text_eq.trans htext
  refine ⟨c, hc, hposition, ?_, hend, ?_, ?_, ?_⟩
  · intro earlier request argument later _
    -- what came before has left the text as it was, so this request is one like the first
    have hearlier := (afterAll_advances c earlier).text_eq.trans htext
    exact keeps_of_text hearlier request argument
  · rw [hrun.position_eq]
    omega
  · rw [← hend]
    exact position_le_length _
  · have hslice := hrun.slice_eq
    rw [htext, hposition] at hslice
    exact hslice.symm

/-- A literal that is not there, repeated letters, a request without a pattern and a literal. -/
theorem afterAll_keeps_mixed : 1 ≤ "abbc".toList.length ∧
    ∃ p, Pattern.compile ['b'] = .ok p ∧
      ∃ c, ofData (.text "abbc".toList) (.int 1) = .ok c ∧
        c.takenAll [(.literal, .text ['c']), (.repeatedly, .pattern ⟨.unique 0, p⟩),
          (.pattern, .int 0), (.literal, .text ['c'])] = "bbc".toList ∧
        slice "abbc".toList 1 (c.afterAll [(.literal, .text ['c']),
          (.repeatedly, .pattern ⟨.unique 0, p⟩), (.pattern, .int 0),
          (.literal, .text ['c'])]).position = "bbc".toList := by
  have hstart : 1 ≤ "abbc".toList.length := by decide
  refine ⟨hstart, _, rfl, ?_⟩
  obtain ⟨c, hc, -, -, -, -, -, htaken⟩ := afterAll_keeps hstart
    [(.literal, .text ['c']), (.repeatedly, .pattern ⟨.unique 0, _⟩), (.pattern, .int 0),
      (.literal, .text ['c'])]
  obtain rfl : ⟨['a'], ['b', 'b', 'c']⟩ = c := Except.ok.inj hc
  exact ⟨_, hc, rfl, htaken.symm⟩

end Abnf.Cursor
