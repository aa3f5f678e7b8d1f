import Abnf.Proofs.Regex.Reading

/-!
# Flags before everything else

Flags for the whole expression have to stand before all that it is made of: once an item, a bar or
an open group has been read, or a character that leads to one, they are refused and stay as they are
(`State.flags_of_begun`). Before that, reading goes through a few modes only, and the flags have no
part in it but for the white space of verbose expressions. So an expression that can be read in
parentheses has no such flags in it, and its flags are those that it is read under
(`State.flags_of_readAll`).
-/

namespace Abnf.Regex

variable {s s' t last last' : State} {c : Char} {cs : List Char}
    {next next' other : Except Fault State}

/-! ## What has begun -/

/-- Something has been read that the expression is made of, or a group is open. -/
def State.HasContent (s : State) : Prop :=
  s.outer ≠ [] ∨ s.level.branches ≠ [] ∨ s.level.items ≠ []

/-- Whether a construct can only end in an item or a group. -/
def Mode.isBound : Mode → Bool
  | .braces _ _ | .escape _ | .hex _ _ _ | .octal _ _ | .reference _ | .setOpen | .setMember _
  | .setAfter _ _ | .setRange _ _ | .named | .characterOpen _ | .name _ _ _ | .behind
  | .flagsOff _ _ => true
  | _ => false

/-- Whether a construct is a character set. -/
def Mode.isSet : Mode → Bool
  | .setOpen | .setMember _ | .setAfter _ _ | .setRange _ _ => true
  | _ => false

/-- The expression has content, or the construct that is being read will give it some. -/
def State.Begun (s : State) : Prop := s.HasContent ∨ s.mode.isBound = true

/-- Reading goes on, if at all, from a state that has begun and has the same flags. -/
def Begins (s : State) (next : Except Fault State) : Prop :=
  ∀ t, next = .ok t → t.flags = s.flags ∧ t.Begun

namespace Begins

/-- There is content now, and the flags are as they were. -/
theorem content (hflags : t.flags = s.flags) (h : t.HasContent) : Begins s (.ok t) := by
  intro _ ht
  cases ht
  exact ⟨hflags, .inl h⟩

/-- An item is content. -/
theorem push {item : Item} : Begins s (.ok (s.push item)) :=
  content rfl (.inr (.inr (List.cons_ne_nil _ _)))

/-- So is an open group. -/
theorem openGroup {opening : Opening} {flags : Flags} :
    Begins s (.ok (s.openGroup opening flags)) :=
  content rfl (.inl (List.cons_ne_nil _ _))

theorem openCapture {name : Option (List Char)} : Begins s (.ok (s.openCapture name)) :=
  content rfl (.inl (List.cons_ne_nil _ _))

/-- What begins a construct that ends in an item or a group. -/
theorem bound {mode : Mode} (h : mode.isBound = true) : Begins s (.ok (s.enter mode)) := by
  intro _ ht
  cases ht
  exact ⟨rfl, .inr h⟩

theorem refuse {cause : Cause} {back : Nat} : Begins s (State.refuse cause back) := by
  intro t ht
  rw [State.refuse] at ht
  cases ht

theorem ite {p : Prop} [Decidable p] (h : Begins s next) (hother : Begins s other) :
    Begins s (if p then next else other) := by
  split
  · exact h
  · exact hother

/-- Beginning goes on from what has begun. -/
theorem bind {f : State → Except Fault State} (h : Begins s next)
    (hf : ∀ t, next = .ok t → Begins t (f t)) : Begins s (next >>= f) := by
  intro u hu
  obtain ⟨t, ht, hu⟩ := Except.bind_eq_ok.mp hu
  obtain ⟨hflags, hbegun⟩ := hf t ht u hu
  exact ⟨hflags.trans (h t ht).1, hbegun⟩

end Begins

namespace State

/-! ## Constructs that end in an item -/

/-- What is delivered is an item, or stays in a set that is open. -/
theorem begins_deliver (slot : Slot) (member : Member) : Begins s (s.deliver slot member) := by
  cases slot with
  | item => cases member <;> exact .push
  | member set => exact .bound rfl
  | last set first =>
    cases first with
    | one code =>
      cases member with
      | one last => exact .ite .refuse (.bound rfl)
      | _ => exact .refuse
    | _ => exact .refuse

/-- A reference that is read is an item. -/
theorem eq_push_of_refer {group : Nat} {unknown : Cause} (h : s.refer group unknown = .ok t) :
    t = s.push (.single (.again s.level.flags.caseRule group)) := by
  rw [refer] at h
  split at h
  · cases h
  · split at h
    · cases h
    · split at h <;> cases h
      rfl

theorem begins_refer (group : Nat) (unknown : Cause) : Begins s (s.refer group unknown) := by
  intro t ht
  rw [eq_push_of_refer ht]
  exact Begins.push _ rfl

/-- A quantifier takes an item and leaves one. -/
theorem begins_quantify (least : Nat) (most : Option Nat) : Begins s (s.quantify least most) := by
  rw [quantify]
  split
  · exact .refuse
  · exact .refuse
  · exact .refuse
  · exact .content rfl (.inr (.inr (List.cons_ne_nil _ _)))

/-- A condition is a group that opens. -/
theorem begins_openCondition (group : Nat) : Begins s (s.openCondition group) := by
  simp only [openCondition]
  split
  · exact .openGroup
  · exact .ite .refuse (.ite .refuse .openGroup)

theorem begins_close : Begins s s.close := by
  have hcontent : ∀ t : State, t.flags = s.flags → t.level.items ≠ [] → Begins s (.ok t) :=
    fun t hflags hitems => .content hflags (.inr (.inr hitems))
  rw [close]
  split
  · -- without a group to close there is nothing to go on from
    intro t ht
    obtain ⟨_, -, ht⟩ := Except.bind_eq_ok.mp ht
    simp [refuse] at ht
  · rename_i opening level outer _
    cases opening with
    | behind => exact .ite .refuse (.ite (hcontent _ rfl (List.cons_ne_nil _ _)) .refuse)
    | _ => exact hcontent _ rfl (List.cons_ne_nil _ _)

/-- A bar leaves an alternative behind. -/
theorem begins_bar : Begins s s.bar := by
  rw [bar]
  split
  · exact .refuse
  · exact .content rfl (.inr (.inl (List.cons_ne_nil _ _)))

/-- Content does not get lost at the start of an item. -/
theorem begins_readPlain (h : s.HasContent) (c : Char) : Begins s (s.readPlain c) := by
  have henter {mode : Mode} : Begins s (.ok (s.enter mode)) := .content rfl h
  simp only [readPlain]
  -- white space and comments in verbose mode come first, then the characters with a meaning
  refine .ite henter (.ite henter ?_)
  split
  · exact henter
  · exact henter
  · exact henter
  · exact begins_close
  · exact begins_bar
  · exact .push
  · exact .push
  · exact .push
  · exact begins_quantify 0 none
  · exact begins_quantify 1 none
  · exact begins_quantify 0 (some 1)
  · exact henter
  · exact .push

/-- Braces that are no quantifier are characters. -/
theorem hasContent_flushBraces (s : State) (least : List Char) (most : Option (List Char)) :
    (s.flushBraces least most).HasContent ∧ (s.flushBraces least most).flags = s.flags := by
  suffices hfold : ∀ (cs : List Char) (s : State), s.HasContent →
      (cs.foldl (fun s c => s.pushCode c.toNat) s).HasContent ∧
        (cs.foldl (fun s c => s.pushCode c.toNat) s).flags = s.flags from
    hfold _ (s.pushCode '{'.toNat) (.inr (.inr (List.cons_ne_nil _ _)))
  intro cs
  induction cs with
  | nil => exact fun s h => ⟨h, rfl⟩
  | cons c cs ih => exact fun s _ => ih (s.pushCode c.toNat) (.inr (.inr (List.cons_ne_nil _ _)))

/-- Braces that hold counts are a quantifier. -/
theorem begins_quantifyBraces (least : List Char) (most : Option (List Char)) :
    Begins s (s.quantifyBraces least most) := by
  intro t ht
  rw [quantifyBraces] at ht
  obtain ⟨low, -, ht⟩ := Except.bind_eq_ok.mp ht
  split at ht
  · exact begins_quantify _ _ t ht
  · obtain ⟨high, -, ht⟩ := Except.bind_eq_ok.mp ht
    exact Begins.ite .refuse (begins_quantify _ _) t ht

/-- Braces are one or the other, and nothing else. -/
theorem begins_readBraces (least : List Char) (most : Option (List Char)) (c : Char) :
    Begins s (s.readBraces least most c) := by
  refine .ite ?_ (.ite (.bound rfl) (.ite ?_ ?_))
  · cases most <;> exact .bound rfl
  · exact begins_quantifyBraces least most
  · intro t ht
    obtain ⟨hcontent, hflags⟩ := s.hasContent_flushBraces least most
    obtain ⟨hflags', hbegun⟩ := begins_readPlain hcontent c t ht
    exact ⟨hflags'.trans hflags, hbegun⟩

/-- A member of a set, or the bracket that closes it. -/
theorem begins_readMember (set : CharSet) (c : Char) : Begins s (s.readMember set c) :=
  .ite .push (.ite (.bound rfl) (.bound rfl))

theorem begins_readRange (set : CharSet) (first : Member) (c : Char) :
    Begins s (s.readRange set first c) :=
  .ite .push (.ite (.bound rfl) (begins_deliver _ _))

/-- An octal escape is a character. -/
theorem begins_deliverOctal (slot : Slot) (digits : List Char) :
    Begins s (s.deliverOctal slot digits) :=
  .ite .refuse (begins_deliver _ _)

/-- Only at the start of an item does it matter whether there is content. -/
theorem begins_readSet (h : s.HasContent ∨ s.mode.isSet = true) (c : Char) :
    Begins s (s.readSet c) := by
  rw [readSet]
  cases hmode : s.mode with
  | setOpen => exact .ite (.bound rfl) (begins_readMember _ c)
  | setMember set => exact begins_readMember set c
  | setAfter set first => exact .ite (.bound rfl) (begins_readMember _ c)
  | setRange set first => exact begins_readRange set first c
  | _ => exact begins_readPlain (h.resolve_right (by simp [hmode, Mode.isSet])) c

/-- The first character that is no octal digit comes behind the escape. -/
theorem begins_readOctal (slot : Slot) (digits : List Char) (c : Char) :
    Begins s (s.readOctal slot digits c) := by
  refine .ite (.bound rfl) ((begins_deliverOctal slot digits).bind fun t ht => ?_)
  rw [deliverOctal] at ht
  split at ht
  · cases ht
  · refine begins_readSet ?_ c
    -- an item is content by now, and otherwise the set is still open
    cases slot with
    | item =>
      cases ht
      exact .inl (.inr (.inr (List.cons_ne_nil _ _)))
    | member set =>
      cases ht
      exact .inr rfl
    | last set first =>
      cases first with
      | one code =>
        rw [deliver] at ht
        split at ht <;> cases ht
        exact .inr rfl
      | _ => cases ht

/-- Every escape is an item, a member, or goes on as an escape. -/
theorem begins_readEscape (slot : Slot) (c : Char) : Begins s (s.readEscape slot c) := by
  simp only [readEscape]
  split
  · exact begins_deliver _ _
  · exact begins_deliver _ _
  · exact .bound rfl
  · refine .ite ?_ (begins_deliver _ _)
    cases slot with
    | item =>
      simp only [readItemEscape]
      split
      · exact .push
      · exact .push
      · exact .push
      · exact .push
      · exact .bound rfl
      · exact .ite (.bound rfl) (.ite (.bound rfl) .refuse)
    | _ => exact .ite (begins_deliver _ _) (.ite (.bound rfl) (.ite (.bound rfl) .refuse))

theorem begins_readHex (slot : Slot) (escape : List Char) (left : Nat) (c : Char) :
    Begins s (s.readHex slot escape left c) :=
  .ite .refuse (.ite (.ite .refuse (begins_deliver _ _)) (.bound rfl))

/-- A reference by number, of which the next character may be part. -/
theorem begins_readReference (digits : List Char) (c : Char) :
    Begins s (s.readReference digits c) := by
  refine .ite (.bound rfl) (.ite (begins_deliverOctal _ _)
    ((begins_refer _ _).bind fun t ht => begins_readPlain ?_ c))
  rw [eq_push_of_refer ht]
  exact .inr (.inr (List.cons_ne_nil _ _))

/-- Flags that are switched off are those of a group. -/
theorem begins_readFlagsOff (on off : List Flag) (c : Char) :
    Begins s (s.readFlagsOff on off c) := by
  simp only [readFlagsOff]
  split
  · exact .ite .refuse (.bound rfl)
  · exact .ite (.ite .refuse .openGroup) (.ite .refuse .refuse)

theorem begins_readNamed (c : Char) : Begins s (s.readNamed c) := by
  simp only [readNamed]
  split
  · exact .bound rfl
  · exact .bound rfl
  · exact .refuse

theorem begins_readBehind (c : Char) : Begins s (s.readBehind c) := by
  simp only [readBehind]
  split
  · exact .openGroup
  · exact .openGroup
  · exact .refuse

/-- A condition by name or by number. -/
theorem begins_openConditionOn (name : List Char) : Begins s (s.openConditionOn name) := by
  refine .ite ?_ ?_
  · split
    · exact begins_openCondition _
    · exact .refuse
  · split
    · exact .refuse
    · refine .ite .refuse (.ite .refuse ?_)
      -- that a number has been asked for changes no flags
      exact begins_openCondition (s := { s with asked := s.asked ++ [_] }) _

/-- What a name is read for ends in an item, a group or a member of a set. -/
theorem begins_endName [Interpreter] (purpose : Purpose) (name : List Char) :
    Begins s (s.endName purpose name) := by
  cases purpose with
  | group =>
    refine .ite .refuse ?_
    split
    · exact .refuse
    · exact .openCapture
  | reference =>
    refine .ite .refuse ?_
    split
    · exact begins_refer _ _
    · exact .refuse
  | condition => exact begins_openConditionOn name
  | character slot =>
    change Begins s (s.deliverNamed slot name)
    rw [deliverNamed]
    split
    · exact begins_deliver _ _
    · exact .refuse

theorem begins_readName [Interpreter] (purpose : Purpose) (name : List Char) (escaped : Bool)
    (c : Char) :
    Begins s (s.readName purpose name escaped c) :=
  .ite (.ite .refuse (begins_endName purpose name)) (.bound rfl)

/-- A flag letter changes nothing yet. -/
theorem begins_addFlag (h : s.HasContent) (on : List Flag) (f : Flag) :
    Begins s (s.addFlag on f) :=
  .ite .refuse (.ite .refuse (.content rfl h))

/-- Behind content, flags for the whole expression are refused. -/
theorem setGlobal_of_hasContent (h : s.HasContent) (on : List Flag) :
    s.setGlobal on = refuse .flagsNotAtStart (on.length + 2) := by
  rw [setGlobal, if_neg]
  simp only [Bool.and_eq_true, List.isEmpty_iff]
  rintro ⟨⟨houter, hbranches⟩, hitems⟩
  exact h.elim (· houter) (Or.elim · (· hbranches) (· hitems))

/-- What has begun goes on as such, and its flags stay. -/
theorem begins_step [Interpreter] (h : s.Begun) (c : Char) : Begins s (s.step c) := by
  have hcontent (hmode : s.mode.isBound = false) : s.HasContent :=
    h.resolve_right (by rw [hmode]; exact Bool.false_ne_true)
  have henter (hmode : s.mode.isBound = false) {mode : Mode} : Begins s (.ok (s.enter mode)) :=
    .content rfl (hcontent hmode)
  rw [step]
  -- the modes that are bound to end in an item come first, and need no content
  cases hmode : s.mode with
  | braces least most => exact begins_readBraces least most c
  | escape slot => exact begins_readEscape slot c
  | hex slot escape left => exact begins_readHex slot escape left c
  | octal slot digits => exact begins_readOctal slot digits c
  | reference digits => exact begins_readReference digits c
  | setOpen | setMember | setAfter | setRange =>
    exact begins_readSet (.inr (by rw [hmode]; rfl)) c
  | named => exact begins_readNamed c
  | characterOpen slot => exact .ite (.bound rfl) .refuse
  | name purpose name escaped => exact begins_readName purpose name escaped c
  | behind => exact begins_readBehind c
  | flagsOff on off => exact begins_readFlagsOff on off c
  | plain => exact begins_readPlain (hcontent (by rw [hmode]; rfl)) c
  | quantified =>
    have hgreed (greed : Greed) : Begins s (.ok (s.setGreed greed)) := by
      rw [setGreed]
      split
      · exact .content rfl (.inr (.inr (List.cons_ne_nil _ _)))
      · exact henter (by rw [hmode]; rfl)
    exact .ite (hgreed _) (.ite (hgreed _) (begins_readPlain (hcontent (by rw [hmode]; rfl)) c))
  | comment escaped => cases escaped <;> exact henter (by rw [hmode]; rfl)
  | groupComment escaped => cases escaped <;> exact henter (by rw [hmode]; rfl)
  | groupOpen =>
    refine .ite (henter (by rw [hmode]; rfl)) ?_
    exact begins_readPlain (s := s.openCapture none) (.inl (List.cons_ne_nil _ _)) c
  | extension =>
    simp only [readExtension]
    split
    · exact .bound rfl
    · exact .openGroup
    · exact henter (by rw [hmode]; rfl)
    · exact .openGroup
    · exact .openGroup
    · exact .bound rfl
    · exact .openGroup
    · exact .bound rfl
    · exact .bound rfl
    · split
      · exact begins_addFlag (hcontent (by rw [hmode]; rfl)) _ _
      · exact .refuse
  | flagsOn on =>
    simp only [readFlagsOn, setGlobal_of_hasContent (hcontent (by rw [hmode]; rfl))]
    split
    · exact begins_addFlag (hcontent (by rw [hmode]; rfl)) _ _
    · split
      · exact .refuse
      · exact .openGroup
      · exact .bound rfl
      · exact .ite .refuse .refuse

/-- Whatever is read from then on, the flags stay. -/
theorem flags_of_begun [Interpreter] (h : s.Begun) (hread : s.readAll cs = .ok last) :
    last.flags = s.flags := by
  induction cs generalizing s with
  | nil =>
    cases hread
    rfl
  | cons c cs ih =>
    obtain ⟨t, hstep, hread⟩ := Except.bind_eq_ok.mp hread
    obtain ⟨hflags, hbegun⟩ := begins_step h c t hstep
    rw [ih hbegun hread, hflags]

/-- At the end of the text they stay as well. -/
theorem flags_of_settle (h : s.settle = .ok t) : t.flags = s.flags := by
  revert h
  rw [settle]
  cases s.mode with
  | plain | quantified =>
    rintro ⟨⟩
    rfl
  | braces least most =>
    rintro ⟨⟩
    exact (s.hasContent_flushBraces _ _).2
  | comment escaped =>
    cases escaped with
    | true => nofun
    | false =>
      rintro ⟨⟩
      rfl
  -- an octal escape, a reference or braces may be open at the end, and are items then
  | octal slot digits =>
    cases slot with
    | item => exact fun h => (begins_deliverOctal _ _ t h).1
    | _ => nofun
  | reference digits => exact fun h => (begins_refer _ _ t h).1
  | groupComment escaped => cases escaped <;> nofun
  | name purpose name escaped => cases escaped <;> cases name <;> nofun
  | _ => nofun

end State

/-! ## Before anything has begun -/

/-- Two states, the second in a group, that wait for an item in the same way. -/
structure Waits (s s' : State) : Prop where
  mode : s'.mode = s.mode
  verbose : s.level.flags.verbose = true → s'.level.flags.verbose = true
  items : s.level.items = []
  items' : s'.level.items = []
  outer' : s'.outer.isEmpty = false

/-- Reading goes on from the first state by beginning something, or from both by waiting on. -/
def Goes (s : State) (next next' : Except Fault State) : Prop :=
  ∀ t t', next = .ok t → next' = .ok t' → t.flags = s.flags ∧ (t.Begun ∨ Waits t t')

namespace Goes

variable {next' other' : Except Fault State}

/-- What begins anything needs no second state. -/
theorem begins (h : Begins s next) : Goes s next next' := by
  intro t t' ht _
  obtain ⟨hflags, hbegun⟩ := h t ht
  exact ⟨hflags, .inl hbegun⟩

/-- Both wait on, in another mode. -/
theorem enter (h : Waits s s') {mode : Mode} :
    Goes s (.ok (s.enter mode)) (.ok (s'.enter mode)) := by
  intro t t' ht ht'
  cases ht
  cases ht'
  exact ⟨rfl, .inr ⟨rfl, h.verbose, h.items, h.items', h.outer'⟩⟩

theorem ite {p : Prop} [Decidable p] (h : Goes s next next') (hother : Goes s other other') :
    Goes s (if p then next else other) (if p then next' else other') := by
  split
  · exact h
  · exact hother

end Goes

namespace Waits

/-- At the start of an item both skip what is skipped, or both open a group, or an item begins. -/
theorem readPlain (h : Waits s s') (c : Char) : Goes s (s.readPlain c) (s'.readPlain c) := by
  generalize hnext : s'.readPlain c = next'
  simp only [State.readPlain]
  -- white space and comments are skipped in both; all else has content, except for parentheses,
  -- which may still turn out to be flags
  split
  · rename_i hspace
    obtain ⟨hverbose, hspace⟩ := Bool.and_eq_true_iff.mp hspace
    have hsame : s'.readPlain c = .ok (s'.enter .plain) := by
      simp [State.readPlain, h.verbose hverbose, hspace]
    rw [← hnext, hsame]
    exact .enter h
  · split
    · rename_i hspace hcomment
      obtain ⟨hverbose, hc⟩ := Bool.and_eq_true_iff.mp hcomment
      obtain rfl := of_decide_eq_true hc
      have hsame : s'.readPlain '#' = .ok (s'.enter (.comment false)) := by
        simp [State.readPlain, h.verbose hverbose, isPatternSpace]
      rw [← hnext, hsame]
      exact .enter h
    · split
      · exact .begins (.bound rfl)
      · exact .begins (.bound rfl)
      · have hsame : s'.readPlain '(' = .ok (s'.enter .groupOpen) := by
          simp [State.readPlain, isPatternSpace]
        rw [← hnext, hsame]
        exact .enter h
      · exact .begins State.begins_close
      · exact .begins State.begins_bar
      · exact .begins .push
      · exact .begins .push
      · exact .begins .push
      · exact .begins (State.begins_quantify _ _)
      · exact .begins (State.begins_quantify _ _)
      · exact .begins (State.begins_quantify _ _)
      · exact .begins (.bound rfl)
      · exact .begins .push

/-- A flag letter is read alike. -/
theorem addFlag (h : Waits s s') (on : List Flag) (f : Flag) :
    Goes s (s.addFlag on f) (s'.addFlag on f) :=
  .ite (.begins .refuse) (.ite (.begins .refuse) (.enter h))

/-- One character, by the mode that both are in. -/
theorem step [Interpreter] (h : Waits s s') (c : Char) : Goes s (s.step c) (s'.step c) := by
  rw [State.step, State.step, h.mode]
  have hbound (hmode : s.mode.isBound = true) : Begins s (s.step c) :=
    State.begins_step (.inr hmode) c
  cases hmode : s.mode with
  | plain => exact h.readPlain c
  | quantified =>
    have hgreed (greed : Greed) :
        Goes s (.ok (s.setGreed greed)) (.ok (s'.setGreed greed)) := by
      rw [State.setGreed, State.setGreed, h.items, h.items']
      exact .enter h
    exact .ite (hgreed _) (.ite (hgreed _) (h.readPlain c))
  | comment escaped => cases escaped <;> exact .enter h
  | groupComment escaped => cases escaped <;> exact .enter h
  | groupOpen =>
    refine .ite (.enter h) (.begins ?_)
    exact State.begins_readPlain (s := s.openCapture none) (.inl (List.cons_ne_nil _ _)) c
  | extension =>
    simp only [State.readExtension]
    split
    · exact .begins (.bound rfl)
    · exact .begins .openGroup
    · exact .enter h
    · exact .begins .openGroup
    · exact .begins .openGroup
    · exact .begins (.bound rfl)
    · exact .begins .openGroup
    · exact .begins (.bound rfl)
    · exact .begins (.bound rfl)
    · split
      · exact h.addFlag _ _
      · exact .begins .refuse
  -- in a group the flags are refused, so that nothing is said of those that are not
  | flagsOn on =>
    have hrefuse : s'.setGlobal on = State.refuse .flagsNotAtStart (on.length + 2) := by
      rw [State.setGlobal, h.outer']
      rfl
    simp only [State.readFlagsOn, hrefuse]
    split
    · exact h.addFlag _ _
    · split
      · exact fun _ _ _ => nofun
      · exact .begins .openGroup
      · exact .begins (.bound rfl)
      · exact .begins (.ite .refuse .refuse)
  | _ =>
    rw [State.step, hmode] at hbound
    exact .begins (hbound rfl)

end Waits

/-- An expression that can be read in a group has the flags that it is read under. -/
theorem State.flags_of_readAll [Interpreter] (h : Waits s s') (hread : s.readAll cs = .ok last)
    (hread' : s'.readAll cs = .ok last') : last.flags = s.flags := by
  induction cs generalizing s s' with
  | nil =>
    cases hread
    rfl
  | cons c cs ih =>
    obtain ⟨t, hstep, hread⟩ := Except.bind_eq_ok.mp hread
    obtain ⟨t', hstep', hread'⟩ := Except.bind_eq_ok.mp hread'
    -- once anything has begun the second reading plays no part
    obtain ⟨hflags, hbegun | hwaits⟩ := h.step c t t' hstep hstep'
    · rw [flags_of_begun hbegun hread, hflags]
    · rw [ih hwaits hread hread', hflags]

end Abnf.Regex
