import Abnf.Proofs.Regex.Lockstep
import Abnf.Proofs.Regex.Pieces

/-!
# Expressions with parts from outside

Most texts that expressions are put together from can be read wherever they stand. A part that comes
from outside may have groups, and then it matters which groups stand before it: no two may have one
name, and a number counts all of them. `groupsBehind` reads nothing but the parts, one after the
other, and `Assembles` says of a text that this is all that matters: the text can be read if its
parts can, and is refused for the same fault if they cannot.

Nothing is said of what the text means; `Reads` and `Embeds` do that for the two kinds of texts.
-/

namespace Abnf.Regex

variable {s t u : State} {cs v : List Char} {parts parts' : List (List Char)}
  {groups groups' : List Group} {fault : Fault} {L : Language Char}

/-! ## Texts between items -/

/-- A state between two items, under no flags, in groups that make nothing of their bodies. -/
structure State.Open (s : State) : Prop where
  between : s.mode.Between
  levelFlags : s.level.flags = {}
  flags : s.flags = {}
  plain : s.Plain
  answered : s.Answered

/-- The second state is further on in the same group, and these are the groups then. -/
structure GoesOn (s t : State) (groups : List Group) : Prop where
  between : t.mode.Between
  levelFlags : t.level.flags = s.level.flags
  flags : t.flags = s.flags
  outer : t.outer = s.outer
  groups : t.groups = groups
  answered : t.Answered

/-- What is read behind a state comes to these groups, or both are refused for the same fault. -/
inductive Comes (s : State) : Except Fault (List Group) → Except Fault State → Prop where
  | on {t : State} {groups : List Group} (h : GoesOn s t groups) : Comes s (.ok groups) (.ok t)
  | refused (fault : Fault) : Comes s (.error fault) (.error fault)

namespace State.Open

theorem behind (groups : List Group) : (State.behind groups {}).Open :=
  ⟨.inl rfl, rfl, rfl, State.plain_start {}, .of_empty rfl⟩

theorem enter (h : s.Open) : (s.enter .plain).Open :=
  ⟨.inl rfl, h.levelFlags, h.flags, h.plain, h.answered⟩

/--
Inside of parentheses the group that was open so far is one more that makes nothing of its body.
-/
theorem openGroup (h : s.Open) : (s.openGroup .plain s.level.flags).Open :=
  ⟨.inl rfl, h.levelFlags, h.flags, List.forall_mem_cons.mpr ⟨rfl, h.plain⟩, h.answered⟩

/-- A bar may stand there. -/
theorem branching (h : s.Open) : s.Branching := by
  intro o ho group
  rw [h.plain o (List.mem_of_mem_head? ho)]
  exact Opening.noConfusion

end State.Open

namespace GoesOn

theorem isOpen (h : GoesOn s t groups) (hs : s.Open) : t.Open where
  between := h.between
  levelFlags := h.levelFlags.trans hs.levelFlags
  flags := h.flags.trans hs.flags
  plain := by rw [State.Plain, h.outer]; exact hs.plain
  answered := h.answered

theorem trans (h : GoesOn s t groups) (h' : GoesOn t u groups') : GoesOn s u groups' where
  between := h'.between
  levelFlags := h'.levelFlags.trans h.levelFlags
  flags := h'.flags.trans h.flags
  outer := h'.outer.trans h.outer
  groups := h'.groups
  answered := h'.answered

/-- What is read further on is read from there on. -/
theorem comes {taken : Except Fault (List Group)} {read : Except Fault State}
    (h : GoesOn s t groups)
    (h' : Comes t taken read) : Comes s taken read := by
  cases h' with
  | on h' => exact .on (h.trans h')
  | refused fault => exact .refused fault

end GoesOn

theorem Comes.bind {taken : Except Fault (List Group)} {read : Except Fault State}
    {f : List Group → Except Fault (List Group)} {g : State → Except Fault State}
    (h : Comes s taken read) (hf : ∀ t, GoesOn s t t.groups → Comes t (f t.groups) (g t)) :
    Comes s (taken >>= f) (read >>= g) := by
  cases h with
  | refused fault => exact .refused fault
  | @on t groups h =>
    obtain rfl := h.groups
    exact h.comes (hf t h)

/-! ## Parts behind groups -/

variable [Interpreter]

/-- The groups there are behind parts that are read one after the other, behind groups. -/
def groupsBehind (groups : List Group) : (parts : List (List Char)) → Except Fault (List Group)
  | [] => .ok groups
  | part :: parts => do groupsBehind (← (State.behind groups {}).readAll part).groups parts

/-- Parts that can be read one after the other. -/
def Fit (parts : List (List Char)) : Prop := ∃ groups, groupsBehind [] parts = .ok groups

theorem fit_iff {parts : List (List Char)} : Fit parts ↔ (groupsBehind [] parts).isOk := by
  rw [Fit]
  cases groupsBehind [] parts <;> simp [Except.isOk, Except.toBool]

instance (parts : List (List Char)) : Decidable (Fit parts) := decidable_of_iff _ fit_iff.symm

/-- Whether a text can be read, and with which groups, is a matter of its parts alone. -/
def Assembles (parts : List (List Char)) (cs : List Char) : Prop :=
  ∀ s : State, s.Open → Comes s (groupsBehind s.groups parts) (s.readAll cs)

theorem groupsBehind_append (groups : List Group) : groupsBehind groups (parts ++ parts') =
    groupsBehind groups parts >>= (groupsBehind · parts') := by
  induction parts generalizing groups with
  | nil => rfl
  | cons part parts ih =>
    rw [List.cons_append, groupsBehind, groupsBehind]
    cases (State.behind groups {}).readAll part with
    | error fault => rfl
    | ok t => exact ih t.groups

namespace Assembles

theorem append (h : Assembles parts cs) (h' : Assembles parts' v) :
    Assembles (parts ++ parts') (cs ++ v) := by
  intro s hs
  rw [groupsBehind_append, State.readAll_append]
  exact (h s hs).bind fun t hgoes => h' t (hgoes.isOpen hs)

theorem bar (h : Assembles parts cs) (h' : Assembles parts' v) :
    Assembles (parts ++ parts') (cs ++ '|' :: v) := by
  -- a bar ends an alternative, and nothing else about the place changes
  have hbar : Assembles [] ['|'] := by
    intro s hs
    have hstep : s.readAll ['|'] = .ok s.nextBranch :=
      State.readAll_cons (hs.between.step_bar.trans hs.branching.bar)
    rw [hstep]
    exact .on ⟨.inl rfl, rfl, rfl, rfl, rfl, hs.answered⟩
  exact h.append (hbar.append h')

/-- In parentheses a text is one item, and what follows them is read behind it. -/
theorem readAll_parenthesise (h : Assembles parts cs) (hs : s.Open) (left : List Char) :
    (∃ t node, GoesOn s t t.groups ∧ groupsBehind s.groups parts = .ok t.groups ∧
      s.readAll ('(' :: '?' :: ':' :: (cs ++ [')']) ++ left) =
        (t.push (.single node)).readAll left) ∨
      ∃ fault, groupsBehind s.groups parts = .error fault ∧
        s.readAll ('(' :: '?' :: ':' :: (cs ++ [')']) ++ left) = .error fault := by
  have hopen : s.readAll ('(' :: '?' :: ':' :: (cs ++ [')']) ++ left) =
      (s.openGroup .plain s.level.flags).readAll cs >>= (·.readAll (')' :: left)) := by
    rw [List.cons_append, State.readAll_cons hs.between.step_parenthesis, List.cons_append,
      State.readAll_cons (c := '?') rfl, List.cons_append, State.readAll_cons (c := ':') rfl,
      List.append_assoc, State.readAll_append]
    rfl
  have hinside := h _ hs.openGroup
  change Comes _ (groupsBehind s.groups parts) _ at hinside
  rw [hopen]
  revert hinside
  generalize groupsBehind s.groups parts = taken
  generalize (s.openGroup .plain s.level.flags).readAll cs = read
  rintro (@⟨t, groups, hgoes⟩ | fault)
  · obtain rfl := hgoes.groups
    have houter : t.outer = (.plain, s.level) :: s.outer := hgoes.outer
    have hclose : t.step ')' =
        .ok ({ t with level := s.level, outer := s.outer }.push (.single t.level.body)) := by
      rw [hgoes.between.step_close, State.close, houter]
    exact .inl ⟨{ t with level := s.level, outer := s.outer }, t.level.body,
      ⟨hgoes.between, rfl, hgoes.flags, rfl, rfl, hgoes.answered⟩, rfl, State.readAll_cons hclose⟩
  · exact .inr ⟨fault, rfl, rfl⟩

theorem parenthesise (h : Assembles parts cs) :
    Assembles parts ('(' :: '?' :: ':' :: (cs ++ [')'])) := by
  intro s hs
  rw [← List.append_nil ('(' :: '?' :: ':' :: (cs ++ [')']))]
  obtain ⟨t, node, hgoes, hgroups, hread⟩ | ⟨fault, hgroups, hread⟩ := h.readAll_parenthesise hs []
  · rw [hgroups, hread]
    exact .on ⟨.inl rfl, hgoes.levelFlags, hgoes.flags, hgoes.outer, rfl, hgoes.answered⟩
  · rw [hgroups, hread]
    exact .refused fault

/-- A text in parentheses and what repeats it. -/
theorem quantified {quantifier : List Char} {least : Nat} {most : Option Nat}
    (h : Assembles parts cs) (hquantifier : ∀ s : State, s.mode = .plain →
      s.readAll quantifier = s.quantify least most) :
    Assembles parts ('(' :: '?' :: ':' :: (cs ++ [')']) ++ quantifier) := by
  intro s hs
  obtain ⟨t, node, hgoes, hgroups, hread⟩ | ⟨fault, hgroups, hread⟩ :=
    h.readAll_parenthesise hs quantifier
  · rw [hgroups, hread, hquantifier _ rfl, State.quantify_push]
    exact .on ⟨.inr rfl, hgoes.levelFlags, hgoes.flags, hgoes.outer, rfl, hgoes.answered⟩
  · rw [hgroups, hread]
    exact .refused fault

/--
A text is a pattern if its parts fit, and is refused for the fault of one of them if they do not.
-/
theorem compile (h : Assembles parts cs) :
    (∃ pattern, Fit parts ∧ Pattern.compile cs = .ok pattern) ∨
    ∃ fault position, groupsBehind [] parts = .error fault ∧
      Pattern.compile cs = .error ⟨fault.cause, position⟩ := by
  have hread := h _ (State.Open.behind [])
  change Comes (State.start {}) (groupsBehind [] parts) ((State.start {}).readAll cs) at hread
  cases hgroups : groupsBehind [] parts with
  | error fault =>
    rw [hgroups] at hread
    generalize htaken : (State.start {}).readAll cs = taken at hread
    cases hread
    obtain ⟨position, hcompile⟩ := Pattern.exists_compile_error htaken
    exact .inr ⟨fault, position, rfl, hcompile⟩
  | ok groups =>
    rw [hgroups] at hread
    generalize htaken : (State.start {}).readAll cs = taken at hread
    obtain ⟨t, hgoes⟩ : ∃ t, taken = .ok t ∧ GoesOn (State.start {}) t groups := by
      cases hread with
      | on hgoes => exact ⟨_, rfl, hgoes⟩
    obtain ⟨rfl, hgoes⟩ := hgoes
    have hflags : t.flags = {} := hgoes.flags
    have hfinish : t.finish = .ok t :=
      hgoes.between.finish hgoes.outer (by rw [hflags]) (by rw [hflags]; rfl) hgoes.answered
    exact .inl ⟨_, ⟨groups, hgroups⟩, Pattern.compile_eq_ok.mpr ⟨_, _, htaken, hfinish, rfl⟩⟩

end Assembles

end Abnf.Regex
