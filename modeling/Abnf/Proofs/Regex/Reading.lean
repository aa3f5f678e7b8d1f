import Abnf.Regex.Pattern
import Abnf.Proofs.Outcome

/-!
# Reading an expression piece by piece

Reading is a fold over characters, so a text may be read in pieces: `State.readAll` is the fold, and
a pattern is what is left of it when the text has ended (`Pattern.compile_eq_ok`).
-/

namespace Abnf.Regex

variable {s t : State} {cs u v source : List Char} {flags : Flags} {position : Nat}

/-! ## Where a bar may stand -/

/-- The innermost group may have as many alternatives as there are. -/
def State.Branching (s : State) : Prop :=
  ∀ o ∈ s.outer.head?, ∀ group, o.1 ≠ .condition group

theorem State.Branching.start (flags : Flags) : (State.start flags).Branching := nofun

theorem State.Branching.bar (h : s.Branching) : s.bar = .ok s.nextBranch := by
  unfold State.bar
  split
  · rename_i heq _
    exact absurd rfl (h _ (by rw [heq]; rfl) _)
  · rfl

theorem State.Branching.openGroup {opening : Opening} {flags : Flags}
    (h : ∀ group, opening ≠ .condition group) : (s.openGroup opening flags).Branching := by
  rintro o ⟨⟩
  exact h

/-! ## Groups that have been asked for -/

/-- There are as many groups as have been asked for by their numbers. -/
def State.Answered (s : State) : Prop := ∀ group ∈ s.asked, group ≤ s.groups.length

theorem State.Answered.of_empty (h : s.asked = []) : s.Answered := by
  intro group hgroup
  rw [h] at hgroup
  cases hgroup

theorem State.checkAsked_eq_ok : s.checkAsked = .ok t ↔ s.Answered ∧ t = s := by
  have hnone : s.asked.find? (s.groups.length < ·) = none ↔ s.Answered := by
    simp [List.find?_eq_none, Answered]
  rw [checkAsked]
  cases hfind : s.asked.find? (s.groups.length < ·) with
  | none => simp [hnone.mp hfind, eq_comm]
  | some group =>
    have hnot : ¬ s.Answered := by simp [← hnone, hfind]
    simp [hnot, refuse]

/-! ## Pieces -/

variable [Interpreter]

namespace State

/-- The state after a text. -/
def readAll (s : State) : List Char → Except Fault State
  | [] => .ok s
  | c :: cs => s.step c >>= (·.readAll cs)

theorem readAll_cons {c : Char} (h : s.step c = .ok t) : s.readAll (c :: cs) = t.readAll cs := by
  rw [readAll, h]
  rfl

theorem readAll_append (s : State) (u v : List Char) :
    s.readAll (u ++ v) = s.readAll u >>= (·.readAll v) := by
  induction u generalizing s with
  | nil => rfl
  | cons c u ih =>
    simp only [List.cons_append, readAll, bind, Except.bind]
    cases s.step c with
    | error => rfl
    | ok t => exact ih t

theorem readAll_of_append (h : s.readAll u = .ok t) : s.readAll (u ++ v) = t.readAll v := by
  rw [readAll_append, h]
  rfl

theorem readFrom_eq_ok : s.readFrom position cs = .ok t ↔
    ∃ last, s.readAll cs = .ok last ∧ last.finish = .ok t := by
  induction cs generalizing s position with
  | nil => simp [readFrom, readAll, Except.mapError_eq_ok]
  | cons c cs ih =>
    rw [readFrom, readAll]
    cases s.step c with
    | error => simp [bind, Except.bind]
    | ok next => simpa [bind, Except.bind] using ih

/-- A text that cannot be read is refused for the same cause wherever its positions count from. -/
theorem exists_readFrom_error {fault : Fault} (h : s.readAll cs = .error fault) :
    ∃ found, s.readFrom position cs = .error ⟨fault.cause, found⟩ := by
  induction cs generalizing s position with
  | nil => cases h
  | cons c cs ih =>
    rw [readFrom]
    rcases Except.bind_eq_error.mp h with hstep | ⟨next, hstep, h⟩
    · rw [hstep]
      exact ⟨_, rfl⟩
    · rw [hstep]
      exact ih h

end State

/-- A pattern is an expression that has been read to its end. -/
theorem Pattern.compile_eq_ok {p : Pattern} : Pattern.compile source flags = .ok p ↔
    ∃ last s, (State.start flags).readAll source = .ok last ∧ last.finish = .ok s ∧
      p = ⟨source, s.flags.settled, s.groups.map (·.name), s.level.body⟩ := by
  unfold compile
  simp only [Except.bind_eq_ok, State.readFrom_eq_ok, Except.pure_eq_ok]
  constructor
  · rintro ⟨s, ⟨last, hread, hfinish⟩, rfl⟩
    exact ⟨last, s, hread, hfinish, rfl⟩
  · rintro ⟨last, s, hread, hfinish, rfl⟩
    exact ⟨s, ⟨last, hread, hfinish⟩, rfl⟩

theorem Pattern.exists_compile_error {fault : Fault}
    (h : (State.start flags).readAll source = .error fault) :
    ∃ position, compile source flags = .error ⟨fault.cause, position⟩ := by
  obtain ⟨position, hread⟩ := @State.exists_readFrom_error _ _ 0 _ _ h
  exact ⟨position, by rw [compile, hread]; rfl⟩

theorem Pattern.source_of_compile {p : Pattern} (h : Pattern.compile source flags = .ok p) :
    p.source = source := by
  obtain ⟨_, _, _, _, rfl⟩ := compile_eq_ok.mp h
  rfl

end Abnf.Regex
