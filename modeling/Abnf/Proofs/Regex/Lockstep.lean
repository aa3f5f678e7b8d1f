import Abnf.Proofs.Regex.Embedding

/-!
# Character by character

A text that can be read as an expression of its own is read in the same way inside of another one.
`Embeds.step` says so of one character, from a lemma for each construct that it may belong to, and
`Embeds.run` of a text. What it says is that the reading goes on in both or, for one of the reasons
that there are, not in the other (`Follows`). Nothing else can get in the way, so behind the groups
of a host a text either reads on to its end or stops at a clash. `Embeds.readAll_ending` is about
the closing parenthesis.

Two things are left out, each at one character of the text: flags for the whole expression, and in a
faithful host a reference to a group by its number, if the host has groups.
-/

namespace Abnf.Regex

variable {host : Host} {s s' t last last' done : State} {c : Char} {cs u v : List Char}
    {fault : Fault}
  {out : Except Fault State}

/-- A bound that cannot be carried out gets into no one's way. -/
theorem State.isClash_of_bound {digits : List Char} (h : bound digits = .error fault) :
    fault.cause.isClash = false := by
  rw [bound] at h
  split at h
  · cases h
    rfl
  · split at h <;> cases h
    rfl

/-- Literal braces are characters, and no groups. -/
theorem State.names_flushBraces (s : State) (least : List Char) (most : Option (List Char)) :
    (s.flushBraces least most).names = s.names := by
  suffices hfold : ∀ (cs : List Char) (s : State),
      (cs.foldl (fun s c => s.pushCode c.toNat) s).names = s.names from hfold _ s
  intro cs
  induction cs with
  | nil => exact fun _ => rfl
  | cons c cs ih => exact fun s => ih (s.pushCode c.toNat)

namespace Embeds

/-! ## What a character does -/

/-- A construct goes on, and nothing else changes. -/
theorem follows_enter (h : Embeds host s s') (mode : Mode) :
    Follows host s (.ok (s.enter mode)) (.ok (s'.enter mode)) :=
  .ok (List.prefix_refl _) (h.enter mode)

/-- An item is added that has no nodes in it. -/
theorem follows_push (h : Embeds host s s') {i : Item}
    (hitem : i.Alike (host.Renumbers s.groups.length) i) :
    Follows host s (.ok (s.push i)) (.ok (s'.push i)) :=
  .ok (List.prefix_refl _) (h.push hitem)

/-- A group is opened that captures nothing. -/
theorem follows_openGroup (h : Embeds host s s') {opening opening' : Opening} {fs fs' : Flags}
    (hopening : host.Opens s.groups.length opening opening') (hflags : fs.Agree fs') :
    Follows host s (.ok (s.openGroup opening fs)) (.ok (s'.openGroup opening' fs')) :=
  .ok (List.prefix_refl _) (h.openGroup hopening hflags)

/-- What a character begins depends on the flags that agree, and on nothing else. -/
theorem readPlain (h : Embeds host s s') (c : Char) :
    Follows host s (s.readPlain c) (s'.readPlain c) := by
  have hflags := h.agree
  simp only [State.readPlain, hflags.verbose, hflags.multiline, hflags.dotAll]
  refine .ite (h.follows_enter _) (.ite (h.follows_enter _) ?_)
  split
  · exact h.follows_enter _
  · exact h.follows_enter _
  · exact h.follows_enter _
  · exact h.close
  · exact h.bar
  · exact h.follows_push (.single fun _ => .any _)
  · exact h.follows_push (.anchor _)
  · exact h.follows_push (.anchor _)
  · exact h.quantify 0 none
  · exact h.quantify 1 none
  · exact h.quantify 0 (some 1)
  · exact h.follows_enter _
  · exact .ok (List.prefix_refl _) (h.pushCode _)

theorem foldl_pushCode (h : Embeds host s s') (cs : List Char) :
    Embeds host (cs.foldl (fun s c => s.pushCode c.toNat) s)
      (cs.foldl (fun s c => s.pushCode c.toNat) s') := by
  induction cs generalizing s s' with
  | nil => exact h
  | cons c cs ih => exact ih (h.pushCode c.toNat)

/-- Braces that are no quantifier are the same characters. -/
theorem flushBraces (h : Embeds host s s') (least : List Char) (most : Option (List Char)) :
    Embeds host (s.flushBraces least most) (s'.flushBraces least most) :=
  h.foldl_pushCode ('{' :: (least ++ (most.map (',' :: ·)).getD []))

/-- Counts that are read in the one are read in the other. -/
theorem quantifyBraces (h : Embeds host s s') (least : List Char) (most : Option (List Char)) :
    Follows host s (s.quantifyBraces least most) (s'.quantifyBraces least most) := by
  rw [State.quantifyBraces, State.quantifyBraces]
  cases hlow : State.bound least with
  | error fault => exact .error (State.isClash_of_bound hlow)
  | ok low =>
    simp only [bind, Except.bind]
    split
    · exact h.quantify low none
    · cases hhigh : State.bound (most.getD least) with
      | error fault => exact .error (State.isClash_of_bound hhigh)
      | ok high => exact .ite .refuse (h.quantify low (some high))

theorem readBraces (h : Embeds host s s') (least : List Char) (most : Option (List Char))
    (c : Char) : Follows host s (s.readBraces least most c) (s'.readBraces least most c) := by
  refine .ite (h.follows_enter _) (.ite (h.follows_enter _) (.ite (h.quantifyBraces _ _) ?_))
  -- the braces are characters, and the next one is read behind them
  refine ((h.flushBraces least most).readPlain c).of_names ?_
  simp only [State.names_flushBraces, List.prefix_refl]

theorem deliverOctal (h : Embeds host s s') (slot : Slot) (digits : List Char) :
    Follows host s (s.deliverOctal slot digits) (s'.deliverOctal slot digits) :=
  .ite .refuse (h.deliver _ _)

/-- A number goes to the same group only if no groups come before. -/
theorem numbered (hfirst : host.faithful = true → host.count = 0) (group : Nat) :
    Numbered host group group := by
  cases hfaithful : host.faithful with
  | true => exact .inl (by rw [hfirst hfaithful, Nat.add_zero])
  | false => exact .inr ⟨hfaithful, rfl⟩

/-- A reference by number, where no groups come before. -/
theorem deliverReference (h : Embeds host s s') (hfirst : host.faithful = true → host.count = 0)
    (digits : List Char) :
    Follows host s (s.deliverReference digits) (s'.deliverReference digits) :=
  h.refer (numbered hfirst _) rfl

/-- An anchor, a reference, a name, or nothing that there is. -/
theorem readItemEscape (h : Embeds host s s') (c : Char) :
    Follows host s (s.readItemEscape c) (s'.readItemEscape c) := by
  simp only [State.readItemEscape, h.agree.ascii]
  split
  · exact h.follows_push (.anchor _)
  · exact h.follows_push (.anchor _)
  · exact h.follows_push (.anchor _)
  · exact h.follows_push (.anchor _)
  · exact h.follows_enter _
  · exact .ite (h.follows_enter _) (.ite (h.follows_enter _) .refuse)

theorem readMemberEscape (h : Embeds host s s') (slot : Slot) (c : Char) :
    Follows host s (s.readMemberEscape slot c) (s'.readMemberEscape slot c) :=
  .ite (h.deliver _ _) (.ite (h.follows_enter _) (.ite (h.follows_enter _) .refuse))

/-- An escape says the same in both, and the kinds of characters go by the same flag. -/
theorem readEscape (h : Embeds host s s') (slot : Slot) (c : Char) :
    Follows host s (s.readEscape slot c) (s'.readEscape slot c) := by
  simp only [State.readEscape, h.agree.ascii]
  split
  · exact h.deliver _ _
  · exact h.deliver _ _
  · exact h.follows_enter _
  · refine .ite ?_ (h.deliver _ _)
    cases slot with
    | item => exact h.readItemEscape c
    | _ => exact h.readMemberEscape _ c

theorem readHex (h : Embeds host s s') (slot : Slot) (escape : List Char) (left : Nat) (c : Char) :
    Follows host s (s.readHex slot escape left c) (s'.readHex slot escape left c) :=
  .ite .refuse (.ite (.ite .refuse (h.deliver _ _)) (h.follows_enter _))

theorem readMember (h : Embeds host s s') (set : CharSet) (c : Char) :
    Follows host s (s.readMember set c) (s'.readMember set c) :=
  .ite (.ok (List.prefix_refl _) (h.pushSet _)) (.ite (h.follows_enter _) (h.follows_enter _))

theorem readRange (h : Embeds host s s') (set : CharSet) (first : Member) (c : Char) :
    Follows host s (s.readRange set first c) (s'.readRange set first c) :=
  .ite (.ok (List.prefix_refl _) (h.pushSet _)) (.ite (h.follows_enter _) (h.deliver _ _))

/-- In a set nothing is asked of the groups. -/
theorem readSet (h : Embeds host s s') (c : Char) :
    Follows host s (s.readSet c) (s'.readSet c) := by
  rw [State.readSet, State.readSet, h.mode]
  split
  · exact .ite (h.follows_enter _) (h.readMember _ c)
  · exact h.readMember _ c
  · exact .ite (h.follows_enter _) (h.readMember _ c)
  · exact h.readRange _ _ c
  · exact h.readPlain c

/-- An octal escape gives no name. -/
theorem names_deliverOctal {slot : Slot} {digits : List Char}
    (h : s.deliverOctal slot digits = .ok t) : t.names = s.names := by
  rw [State.deliverOctal] at h
  split at h
  · cases h
  · cases slot with
    | last set first =>
      cases first with
      | one code =>
        rw [State.deliver] at h
        split at h <;> cases h
        rfl
      | _ => cases h
    | _ =>
      cases h
      rfl

/-- The escape ends before a character that is no octal digit, which is read behind it. -/
theorem readOctal (h : Embeds host s s') (slot : Slot) (digits : List Char) (c : Char) :
    Follows host s (s.readOctal slot digits c) (s'.readOctal slot digits c) :=
  .ite (h.follows_enter _) ((h.deliverOctal slot digits).bind (fun _ => names_deliverOctal) h.apart
    fun _ _ _ h => h.readSet c)

theorem addFlag (h : Embeds host s s') (on : List Flag) (f : Flag) :
    Follows host s (s.addFlag on f) (s'.addFlag on f) :=
  .ite .refuse (.ite .refuse (h.follows_enter _))

/-- Flags of a group are switched on and off in both. -/
theorem readFlagsOn (h : Embeds host s s') (on : List Flag) (hc : c ≠ ')') :
    Follows host s (s.readFlagsOn on c) (s'.readFlagsOn on c) := by
  simp only [State.readFlagsOn]
  split
  · exact h.addFlag on _
  · split
    · exact absurd rfl hc
    · exact h.follows_openGroup .plain (h.agree.within _ _)
    · exact h.follows_enter _
    · exact .ite .refuse .refuse

theorem readFlagsOff (h : Embeds host s s') (on off : List Flag) (c : Char) :
    Follows host s (s.readFlagsOff on off c) (s'.readFlagsOff on off c) := by
  simp only [State.readFlagsOff]
  split
  · exact .ite .refuse (h.follows_enter _)
  · exact .ite (.ite .refuse (h.follows_openGroup .plain (h.agree.within _ _)))
      (.ite .refuse .refuse)

/-- Which kind of group it is goes by the characters alone. -/
theorem readExtension (h : Embeds host s s') (c : Char) :
    Follows host s (s.readExtension c) (s'.readExtension c) := by
  simp only [State.readExtension]
  split
  · exact h.follows_enter _
  · exact h.follows_openGroup .plain h.agree
  · exact h.follows_enter _
  · exact h.follows_openGroup (.ahead false) h.agree
  · exact h.follows_openGroup (.ahead true) h.agree
  · exact h.follows_enter _
  · exact h.follows_openGroup .atomic h.agree
  · exact h.follows_enter _
  · exact h.follows_enter _
  · split
    · exact h.addFlag [] _
    · exact .refuse

theorem readNamed (h : Embeds host s s') (c : Char) :
    Follows host s (s.readNamed c) (s'.readNamed c) := by
  simp only [State.readNamed]
  split
  · exact h.follows_enter _
  · exact h.follows_enter _
  · exact .refuse

/-- A look behind keeps how many groups come before it, those of the host counted in. -/
theorem readBehind (h : Embeds host s s') (c : Char) :
    Follows host s (s.readBehind c) (s'.readBehind c) := by
  simp only [State.readBehind, h.length_groups]
  split
  · exact h.follows_openGroup (.behind false _) h.agree
  · exact h.follows_openGroup (.behind true _) h.agree
  · exact .refuse

end Embeds

/-! ## What may get in the way -/

/-- The next character ends a reference to a group by its number. -/
def State.endsReference (s : State) (c : Char) : Bool :=
  match s.mode with
  | .reference digits =>
    !(digits.length < 2 && Text.isAsciiDigit c) &&
      !((digits ++ [c]).length = 3 && (digits ++ [c]).all isOctalDigit)
  | .name .condition name false => c = ')' && !isGroupName name
  | _ => false

/-- The next character ends a group of flags for the whole expression. -/
def State.SetsFlags (s : State) (c : Char) : Prop := (∃ on, s.mode = .flagsOn on) ∧ c = ')'

theorem State.names_openCapture (s : State) (name : Option (List Char)) :
    (s.openCapture name).names = s.names ++ [name] := by
  rw [State.names, State.names]
  exact List.map_append

/-- A group that is found by its name has the name, and a number. -/
theorem State.mem_names_of_groupNamed? {name : List Char} {group : Nat}
    (h : s.groupNamed? name = some group) :
    some name ∈ s.names ∧ 0 < group := by
  obtain ⟨i, hi, rfl⟩ := Option.map_eq_some_iff.mp h
  obtain ⟨hlt, hname, -⟩ := List.findIdx?_eq_some_iff_getElem.mp hi
  exact ⟨List.mem_map.mpr ⟨_, List.getElem_mem hlt, of_decide_eq_true hname⟩, Nat.succ_pos i⟩

namespace Embeds

variable {host : Host}

/-- A name is that of a group of the host, or that of the group that it is alone. -/
theorem groupNamed? (h : Embeds host s s') {name : List Char}
    (hname : some name ∉ host.groups.map (·.name)) :
    s'.groupNamed? name = (s.groupNamed? name).map (· + host.count) := by
  -- the groups of the host come first, and none of them has the name
  have hindex (groups : List Group) : groups.findIdx? (·.name = some name) =
      (groups.map (·.name)).findIdx? (· = some name) := by
    rw [List.findIdx?_map]
    rfl
  have hnone : (host.groups.map (·.name)).findIdx? (· = some name) = none :=
    List.findIdx?_eq_none_iff.mpr fun other hother =>
      decide_eq_false (by rintro rfl; exact hname hother)
  have hnames : s'.groups.map (·.name) = host.groups.map (·.name) ++ s.groups.map (·.name) :=
    h.names
  rw [State.groupNamed?, State.groupNamed?, hindex, hindex, hnames, List.findIdx?_append, hnone,
    Option.none_or, Option.map_map, Option.map_map, List.length_map]
  congr 1
  funext i
  simp only [Function.comp_apply, Host.count]
  omega

/-- A name is given to a group, unless a group of the host has it. -/
theorem openNamed (h : Embeds host s s') (name : List Char) :
    Follows host s (s.openNamed name) (s'.openNamed name) := by
  refine .ite .refuse ?_
  by_cases hname : some name ∈ host.groups.map (·.name)
  · -- the host has the name: alone the group may be opened, but not here
    cases hs : s.groupNamed? name with
    | some group =>
      refine ⟨fun _ hnext => (by cases hnext), fun hnone => ?_⟩
      rw [hnone.none] at hname
      cases hname
    | none =>
      have htaken : (s'.groupNamed? name).isSome := by
        rw [State.groupNamed?, Option.isSome_map, List.findIdx?_isSome, List.any_eq_true]
        have hmem : some name ∈ s'.names := h.names ▸ List.mem_append_left _ hname
        obtain ⟨g, hg, hgname⟩ := List.mem_map.mp hmem
        exact ⟨g, hg, decide_eq_true hgname⟩
      obtain ⟨earlier, hearlier⟩ := Option.isSome_iff_exists.mp htaken
      rw [hearlier]
      refine ⟨?_, fun _ _ hnext => by cases hnext⟩
      rintro _ ⟨⟩
      refine .inr ⟨⟨_, rfl, rfl⟩, fun _ hapart => hapart name ?_ hname⟩
      rw [State.names_openCapture]
      exact List.mem_append_right _ (List.mem_singleton_self _)
  · rw [h.groupNamed? hname]
    cases hs : s.groupNamed? name with
    | some group =>
      refine ⟨fun _ hnext => (by cases hnext), fun hnone fault hfault _ => ?_⟩
      rw [← hfault, Option.map_some, hnone.count_eq, h.groups_of_groupless hnone]
      rfl
    | none =>
      refine .ok ?_ (h.openCapture (some name) fun n hn => by cases hn; exact hname)
      rw [State.names_openCapture]
      exact List.prefix_append ..

/-- A reference by name goes to the group that has the name. -/
theorem referNamed (h : Embeds host s s') (name : List Char) :
    Follows host s (s.referNamed name) (s'.referNamed name) := by
  refine .ite .refuse ?_
  cases hs : s.groupNamed? name with
  | none => exact .error rfl
  | some group =>
    have hname := h.apart name (State.mem_names_of_groupNamed? hs).1
    rw [h.groupNamed? hname, hs]
    exact h.refer (.inl rfl) rfl

/-- The expression has asked for a group with a number. -/
theorem ask (h : Embeds host s s') (group : Nat) : Embeds host
    { s with asked := s.asked ++ [group] } { s' with asked := s'.asked ++ [group] } :=
  ⟨h.nests, h.mode, h.names, h.apart, h.groups, by rw [h.asked, List.append_assoc], h.flags,
    h.flags'⟩

/-- A condition by name goes to the group that has it, and one by number to a group yet to come. -/
theorem openConditionOn (h : Embeds host s s') (name : List Char)
    (hfirst : isGroupName name = false → host.faithful = true → host.count = 0) :
    Follows host s (s.openConditionOn name) (s'.openConditionOn name) := by
  rw [State.openConditionOn, State.openConditionOn]
  -- a name means the same group in both, a number that counts from the start does not
  split
  · cases hs : s.groupNamed? name with
    | none => exact .error rfl
    | some group =>
      obtain ⟨hmem, hpos⟩ := State.mem_names_of_groupNamed? hs
      rw [h.groupNamed? (h.apart name hmem), hs]
      exact h.openCondition (.inl rfl) hpos
  · rename_i hnumber
    split
    · exact .refuse
    · rename_i group _
      by_cases hzero : group = 0
      · rw [if_pos hzero, if_pos hzero]
        exact .refuse
      · rw [if_neg hzero, if_neg hzero]
        have hsame := numbered (hfirst (Bool.not_eq_true _ ▸ hnumber)) group
        refine .ite .refuse ?_
        exact ((h.ask group).openCondition hsame (Nat.pos_of_ne_zero hzero)).of_names
          (List.prefix_refl _)

/-- A name ends at the same character, and is looked up in both. -/
theorem readName [Interpreter] (h : Embeds host s s') {purpose : Purpose} {name : List Char}
    {escaped : Bool} (hmode : s.mode = .name purpose name escaped)
    (hnumber : host.faithful = true → host.count = 0 ∨ s.endsReference c = false) :
    Follows host s (s.readName purpose name escaped c) (s'.readName purpose name escaped c) := by
  rw [State.readName, State.readName]
  split
  · rename_i hends
    refine .ite .refuse ?_
    -- only the number of a condition can go astray, and the hypothesis on numbers excludes it
    cases purpose with
    | group => exact h.openNamed name
    | reference => exact h.referNamed name
    | condition =>
      refine h.openConditionOn name fun hname hfaithful => (hnumber hfaithful).resolve_right ?_
      simp only [Bool.and_eq_true, Bool.not_eq_true', decide_eq_true_eq] at hends
      obtain ⟨rfl, rfl⟩ := hends
      rw [State.endsReference, hmode]
      simp [hname, Purpose.terminator]
    | character slot =>
      change Follows host s (s.deliverNamed slot name) (s'.deliverNamed slot name)
      rw [State.deliverNamed, State.deliverNamed]
      split
      · exact h.deliver slot _
      · exact .refuse
  · exact h.follows_enter _

/-- A reference gives no name. -/
theorem names_deliverReference {digits : List Char} (h : s.deliverReference digits = .ok t) :
    t.names = s.names := by
  obtain ⟨-, -, -, -, rfl⟩ := State.refer_eq_ok h
  rfl

/-- The number ends where the next character is no part of it. -/
theorem readReference (h : Embeds host s s') (digits : List Char)
    (hmode : s.mode = .reference digits)
    (hnumber : host.faithful = true → host.count = 0 ∨ s.endsReference c = false) :
    Follows host s (s.readReference digits c) (s'.readReference digits c) := by
  rw [State.readReference, State.readReference]
  split
  · exact h.follows_enter _
  · split
    · exact h.deliverOctal _ _
    · rename_i hmore hoctal
      have hfirst : host.faithful = true → host.count = 0 := fun hfaithful => by
        refine (hnumber hfaithful).resolve_right fun hends => ?_
        simp only [State.endsReference, hmode, hmore, hoctal] at hends
        cases hends
      exact (h.deliverReference hfirst digits).bind (fun _ => names_deliverReference) h.apart
        fun _ _ _ h => h.readPlain c

/-- Outside of all groups the flags are those that the expression has when it is read alone. -/
theorem level_flags (h : Embeds host s s') (houter : s.outer = []) :
    s.level.flags = host.flags := by
  have hnests := h.nests
  rw [houter] at hnests
  exact hnests.flags_of_whole

theorem not_setsFlags (h : Embeds host s s') (hflags : ¬ s.SetsFlags c) : ¬ s'.SetsFlags c := by
  rwa [State.SetsFlags, h.mode]

/-- One character is read in the host as it is read alone. -/
theorem step [Interpreter] (h : Embeds host s s') (hflags : ¬ s.SetsFlags c)
    (hnumber : host.faithful = true → host.count = 0 ∨ s.endsReference c = false) :
    Follows host s (s.step c) (s'.step c) := by
  have hsame {greed : Greed} : s.names <+: (s.setGreed greed).names :=
    names_setGreed s greed ▸ List.prefix_refl _
  rw [State.step, State.step, h.mode]
  -- a case for each mode; what a group makes of its body is decided when it is closed
  cases hmode : s.mode with
  | plain => exact h.readPlain c
  | quantified =>
    exact .ite (.ok hsame (h.setGreed _)) (.ite (.ok hsame (h.setGreed _)) (h.readPlain c))
  | braces least most => exact h.readBraces least most c
  | comment escaped => cases escaped <;> exact h.follows_enter _
  | escape slot => exact h.readEscape slot c
  | hex slot escape left => exact h.readHex slot escape left c
  | octal slot digits => exact h.readOctal slot digits c
  | reference digits => exact h.readReference digits hmode hnumber
  | setOpen | setMember | setAfter | setRange => exact h.readSet c
  | groupOpen =>
    refine .ite (h.follows_enter _) ?_
    refine ((h.openCapture none nofun).readPlain c).of_names ?_
    rw [State.names_openCapture]
    exact List.prefix_append ..
  | extension => exact h.readExtension c
  | groupComment escaped => cases escaped <;> exact h.follows_enter _
  | named => exact h.readNamed c
  | characterOpen slot => exact .ite (h.follows_enter _) .refuse
  | name purpose name escaped => exact h.readName hmode hnumber
  | behind => exact h.readBehind c
  | flagsOn on => exact h.readFlagsOn on fun hc => hflags ⟨⟨on, hmode⟩, hc⟩
  | flagsOff on off => exact h.readFlagsOff on off c

end Embeds

/-! ## Hosts -/

/-- The start of an expression under flags, behind groups. -/
def State.behind (groups : List Group) (flags : Flags) : State :=
  { start flags with groups := groups }

/-- No open group makes anything of its body. -/
def State.Plain (s : State) : Prop := ∀ o ∈ s.outer, o.1 = .plain

theorem State.plain_start (fs : Flags) : (start fs).Plain := fun _ => nofun

/-- The groups before an expression, with flags of its own. -/
def Host.behind (groups : List Group) (faithful : Bool) (flags : Flags) : Host where
  groups := groups
  flags := flags
  whole := flags
  faithful := faithful

/-- What stands around an expression with flags of its own that has been opened in a state. -/
def Host.inside (before : State) (hplain : before.Plain) (flags : Flags) : Host where
  around := (.plain, before.level) :: before.outer
  plain := List.forall_mem_cons.mpr ⟨rfl, hplain⟩
  asked := before.asked
  flags := flags
  whole := before.flags

theorem Host.groupless_inside (before : State) (hplain : before.Plain) (flags : Flags) :
    (inside before hplain flags).Groupless := ⟨rfl, rfl⟩

/-- Behind groups an expression starts as it does alone. -/
theorem Embeds.start_behind (groups : List Group) (faithful : Bool) (fs : Flags) :
    Embeds (.behind groups faithful fs) (State.start fs) (State.behind groups fs) :=
  ⟨.whole ⟨⟨rfl, rfl, rfl, rfl, rfl⟩, .nil, .nil⟩ rfl, rfl, (List.append_nil _).symm,
    Host.apart_nil _, fun _ => (List.append_nil _).symm, rfl, rfl, rfl⟩

/-- And so it does in parentheses that put its flags into force. -/
theorem Embeds.start_inside (before : State) (hplain : before.Plain) {fs fs' : Flags}
    (hagree : fs.Agree fs') : Embeds (.inside before hplain fs) (State.behind before.groups fs)
      (before.openGroup .plain fs') :=
  ⟨.whole ⟨hagree, .nil, .nil⟩ rfl, rfl, rfl, (Host.groupless_inside ..).apart _, fun _ => rfl,
    (List.append_nil _).symm, rfl, rfl⟩

/-- A state in which nothing has been read yet is one in parentheses. -/
theorem Embeds.of_empty (flags : Flags) (groups : List Group) (asked : List Nat) (mode : Mode) :
    Embeds (.inside (State.start {}) (State.plain_start {}) flags)
      { level := { flags := flags }, mode := mode, groups := groups, asked := asked,
        flags := flags }
      { level := { flags := flags }, outer := [(.plain, {})], mode := mode, groups := groups
        asked := asked } :=
  ⟨.whole ⟨⟨rfl, rfl, rfl, rfl, rfl⟩, .nil, .nil⟩ rfl, rfl, rfl, (Host.groupless_inside ..).apart _,
    fun _ => rfl, rfl, rfl, rfl⟩

/-! ## The end -/

/-- What the end of an expression cuts off is settled in the host as it is alone. -/
theorem Embeds.settle (h : Embeds host s s')
    (hnumber : host.faithful = true → host.count = 0 ∨ ∀ digits, s.mode ≠ .reference digits) :
    Follows host s s.settle s'.settle := by
  have hsame : Follows host s (.ok s) (.ok s') := .ok (List.prefix_refl _) h
  rw [State.settle, State.settle, h.mode]
  cases hmode : s.mode with
  | plain | quantified => exact hsame
  | braces least most =>
    refine .ok ?_ (h.flushBraces least most)
    simp only [State.names_flushBraces, List.prefix_refl]
  | comment escaped =>
    cases escaped with
    | true => exact .refuse
    | false => exact hsame
  | octal slot digits =>
    cases slot with
    | item => exact h.deliverOctal .item digits
    | _ => exact .refuse
  | reference digits =>
    have hfirst : host.faithful = true → host.count = 0 := fun hfaithful =>
      (hnumber hfaithful).resolve_right fun hnot => hnot digits hmode
    exact h.deliverReference hfirst digits
  | groupComment escaped => cases escaped <;> exact .refuse
  | name purpose name escaped => cases escaped <;> cases name <;> exact .refuse
  | _ => exact .refuse

/-- The end of an expression gets into no one's way but by a reference that it ends. -/
theorem State.mode_of_settle (hsettle : s.settle = .error fault)
    (hclash : fault.cause.isClash = true) :
    ∃ digits, s.mode = .reference digits ∧ s.deliverReference digits = .error fault := by
  -- of all that can be cut off, only a reference by number may go to a group that is still open
  have hnot {f : Fault} (hf : f.cause.isClash = false) :
      (.error f : Except Fault State) ≠ .error fault := by
    rintro ⟨⟩
    rw [hf] at hclash
    cases hclash
  rw [State.settle] at hsettle
  revert hsettle
  cases hmode : s.mode with
  | plain | quantified | braces => nofun
  | comment escaped =>
    cases escaped with
    | true => exact fun h => absurd h (hnot rfl)
    | false => nofun
  | octal slot digits =>
    cases slot with
    | item =>
      simp only [State.deliverOctal]
      split
      · exact fun h => absurd h (hnot rfl)
      · nofun
    | _ => exact fun h => absurd h (hnot rfl)
  | reference digits => exact fun h => ⟨digits, rfl, h⟩
  | groupComment escaped => cases escaped <;> exact fun h => absurd h (hnot rfl)
  | name purpose name escaped =>
    cases escaped <;> cases name <;> exact fun h => absurd h (hnot rfl)
  | _ => exact fun h => absurd h (hnot rfl)

/-- A number ends at a character that is no digit. -/
theorem State.readReference_of_not_digit {digits : List Char} (hdigit : Text.isAsciiDigit c = false)
    (hoctal : isOctalDigit c = false) : s.readReference digits c =
      (do (← s.deliverReference digits).readPlain c) := by
  have hlast : (digits ++ [c]).all isOctalDigit = false := by
    rw [List.all_append, List.all_cons, hoctal, Bool.false_and, Bool.and_false]
  rw [readReference, hdigit, hlast, Bool.and_false, Bool.and_false, if_neg Bool.false_ne_true,
    if_neg Bool.false_ne_true]

theorem State.readPlain_parenthesis (s : State) : s.readPlain ')' = s.close := by
  simp [readPlain, isPatternSpace]

theorem State.readPlain_newline (h : s.level.flags.verbose) :
    s.readPlain '\n' = .ok (s.enter .plain) := by
  simp [readPlain, h, isPatternSpace]

/-- The end of an expression gives no group a name. -/
theorem State.names_of_settle (h : s.settle = .ok t) : t.names = s.names := by
  revert h
  rw [settle]
  cases s.mode with
  | plain | quantified =>
    rintro ⟨⟩
    rfl
  | braces least most =>
    rintro ⟨⟩
    exact names_flushBraces s least most
  | comment escaped =>
    cases escaped with
    | true => nofun
    | false =>
      rintro ⟨⟩
      rfl
  | octal slot digits =>
    cases slot with
    | item =>
      simp only [deliverOctal]
      split
      · nofun
      · rintro ⟨⟩
        rfl
    | _ => nofun
  | reference digits => exact Embeds.names_deliverReference
  | groupComment escaped => cases escaped <;> nofun
  | name purpose name escaped => cases escaped <;> cases name <;> nofun
  | _ => nofun

/--
An expression has ended well if what was cut off could be settled, no group is open, and there are
as many as have been asked for.
-/
theorem State.finish_eq_ok (h : s.finish = .ok done) :
    s.settle = .ok done ∧ done.outer = [] ∧ done.Answered := by
  obtain ⟨t, hsettle, h⟩ := Except.bind_eq_ok.mp h
  split at h
  · rename_i houter
    obtain ⟨u, hflags, h⟩ := Except.bind_eq_ok.mp h
    rw [checkFlags] at hflags
    split at hflags
    · cases hflags
    · split at hflags <;> cases hflags
      obtain ⟨hasked, rfl⟩ := checkAsked_eq_ok.mp h
      exact ⟨hsettle, List.isEmpty_iff.mp houter, hasked⟩
  · cases h

/--
The state before an expression with the expression as one item, and the groups there are then.
-/
def State.after (before done : State) : State where
  level := { before.level with items := .single done.level.body :: before.level.items }
  outer := before.outer
  groups := done.groups
  asked := before.asked ++ done.asked
  flags := before.flags

section

variable {before : State} {hplain : before.Plain} {fs : Flags}

/-- An expression that has been read alone is one item of the state that it was opened in. -/
theorem Embeds.close_of_outer (h : Embeds (.inside before hplain fs) s s') (houter : s.outer = []) :
    s'.close = .ok (before.after s) := by
  have hnone := Host.groupless_inside before hplain fs
  have hnests := h.nests
  rw [houter] at hnests
  have hs' : s'.outer = (.plain, before.level) :: before.outer := hnests.eq_around
  have hbody : Shifts 0 s.groups.length s.level.body s'.level.body :=
    (h.level.imp fun _ _ hnode => hnode rfl).body
  have hasked : s'.asked = before.asked ++ s.asked := h.asked
  have hflags : s'.flags = before.flags := h.flags'
  rw [State.close, hs']
  simp only [State.push, State.after, hbody.eq_of_zero, h.groups_of_groupless hnone, hasked, hflags]

end

/-! ## Runs -/

variable [Interpreter]

/--
A text is read that sets no flags for the whole expression: to its end, or up to a character at
which it is refused.
-/
inductive Calm : State → List Char → Except Fault State → Prop where
  | nil (s : State) : Calm s [] (.ok s)
  | cons {s t : State} {c : Char} {cs : List Char} {out : Except Fault State}
      (hflags : ¬ s.SetsFlags c) (hstep : s.step c = .ok t) (hnames : s.names <+: t.names)
      (h : Calm t cs out) : Calm s (c :: cs) out
  | stop {s : State} {c : Char} {cs : List Char} {fault : Fault} (hflags : ¬ s.SetsFlags c)
      (hstep : s.step c = .error fault) : Calm s (c :: cs) (.error fault)

theorem Calm.readAll (h : Calm s cs out) : s.readAll cs = out := by
  induction h with
  | nil => rfl
  | cons _ hstep _ _ ih => rw [State.readAll_cons hstep, ih]
  | stop _ hstep =>
    rw [State.readAll, hstep]
    rfl

/-- Names are only added on the way. -/
theorem Calm.names (h : Calm s cs out) (hout : out = .ok last) : s.names <+: last.names := by
  induction h with
  | nil =>
    cases hout
    exact List.prefix_refl _
  | cons _ _ hnames _ ih => exact hnames.trans (ih hout)
  | stop => cases hout

/-- Whether a text refers to a group by its number. -/
def State.refersByNumber (s : State) : List Char → Bool
  | [] =>
    match s.mode with
    | .reference _ => true
    | _ => false
  | c :: cs =>
    s.endsReference c ||
      match s.step c with
      | .ok t => t.refersByNumber cs
      | .error _ => false

/-- Whether an expression refers to a group by its number. -/
def Pattern.refersByNumber (source : List Char) (flags : Flags) : Bool :=
  (State.start flags).refersByNumber source

theorem State.refersByNumber_cons (hstep : s.step c = .ok t) :
    s.refersByNumber (c :: cs) = (s.endsReference c || t.refersByNumber cs) := by
  rw [refersByNumber, hstep]

/-- If a text refers to no group by its number, its end does not. -/
theorem State.refersByNumber_of_append (hread : s.readAll u = .ok t)
    (h : s.refersByNumber (u ++ v) = false) : t.refersByNumber v = false := by
  induction u generalizing s with
  | nil =>
    cases hread
    exact h
  | cons c u ih =>
    obtain ⟨mid, hstep, hread⟩ := Except.bind_eq_ok.mp hread
    rw [List.cons_append, refersByNumber_cons hstep] at h
    exact ih hread (Bool.or_eq_false_iff.mp h).2

namespace Embeds

/-- Flags for the whole expression are refused where a group is open. -/
theorem refuses (h : Embeds host s s') (haround : host.around ≠ []) (hflags : s.SetsFlags c) :
    s'.step c ≠ .ok t := by
  obtain ⟨⟨on, hmode⟩, rfl⟩ := hflags
  have houter : s'.outer.isEmpty = false := by
    simpa using h.nests.ne_nil haround
  have hstep : s'.step ')' = s'.setGlobal on := by rw [State.step, h.mode, hmode]; rfl
  rw [hstep, State.setGlobal, houter]
  exact nofun

/-- A text that can be read in an open group sets no flags for the whole expression. -/
theorem calm (h : Embeds host s s') (hnone : host.Groupless) (haround : host.around ≠ [])
    (hread : s.readAll cs = .ok last) (hread' : s'.readAll cs = .ok last') :
    Calm s cs (.ok last) ∧ Embeds host last last' := by
  -- character by character: flags that are set for the whole would be refused in the host
  induction cs generalizing s s' with
  | nil =>
    cases hread
    cases hread'
    exact ⟨.nil _, h⟩
  | cons c cs ih =>
    obtain ⟨t, hstep, hread⟩ := Except.bind_eq_ok.mp hread
    obtain ⟨t', hstep', hread'⟩ := Except.bind_eq_ok.mp hread'
    have hflags : ¬ s.SetsFlags c := fun hflags => h.refuses haround hflags hstep'
    have hfollows := h.step hflags fun _ => .inl hnone.count_eq
    obtain ⟨hnames, next, hnext, hembeds⟩ := hfollows.exists_of_groupless hnone hstep
    obtain rfl : next = t' := Except.ok.inj (hnext.symm.trans hstep')
    obtain ⟨hcalm, hlast⟩ := ih hembeds hread hread'
    exact ⟨.cons hflags hstep hnames hcalm, hlast⟩

/-- The verbose flag of the whole expression is never taken back. -/
theorem verbose_of_readAll (h : Embeds host s s') (hnone : host.Groupless)
    (hread : s.readAll cs = .ok last) (hverbose : s.flags.verbose = true) :
    last.flags.verbose = true := by
  induction cs generalizing host s s' with
  | nil =>
    cases hread
    exact hverbose
  | cons c cs ih =>
    obtain ⟨t, hstep, hread⟩ := Except.bind_eq_ok.mp hread
    -- flags for the whole expression start it anew, and verbose stays among them
    by_cases hflags : s.SetsFlags c
    · obtain ⟨⟨on, hmode⟩, rfl⟩ := hflags
      have hglobal : s.setGlobal on = .ok t := by
        rw [← hstep, State.step, hmode]
        rfl
      rw [State.setGlobal] at hglobal
      split at hglobal
      · rename_i hempty
        simp only [Bool.and_eq_true, List.isEmpty_iff] at hempty
        obtain ⟨⟨houter, hbranches⟩, hitems⟩ := hempty
        have hlevel : s.level.flags = s.flags := (h.level_flags houter).trans h.flags.symm
        cases hglobal
        simp only [houter, hbranches, hitems, hlevel] at hread
        exact ih (of_empty (s.flags.insertAll on) s.groups s.asked .plain)
          (Host.groupless_inside ..) hread (Flags.verbose_insertAll hverbose on)
      · cases hglobal
    · have hfollows := h.step hflags fun _ => .inl hnone.count_eq
      obtain ⟨-, t', -, hembeds⟩ := hfollows.exists_of_groupless hnone hstep
      refine ih hembeds hnone hread ?_
      rw [hembeds.flags, ← h.flags, hverbose]

/--
A text is read in a host as it is read alone, unless there is a clash. In a faithful host there is
one only if names are used again.
-/
theorem run (h : Embeds host s s') (hcalm : Calm s cs out) (hlast : out = .ok last)
    (hnumber : host.faithful = true → host.count = 0 ∨ s.refersByNumber cs = false) :
    ∃ out', Calm s' cs out' ∧ ((∃ last', out' = .ok last' ∧ Embeds host last last') ∨
      Clashes out' ∧ (host.faithful = true → ¬ host.Apart last.names)) := by
  induction hcalm generalizing s' with
  | nil =>
    cases hlast
    exact ⟨_, .nil s', .inl ⟨s', rfl, h⟩⟩
  | stop => cases hlast
  | cons hflags hstep hnames hcalm ih =>
    simp only [State.refersByNumber_cons hstep, Bool.or_eq_false_iff] at hnumber
    have hflags' := h.not_setsFlags hflags
    rcases (h.step hflags fun hf => (hnumber hf).imp_right And.left).goesOn _ hstep with
      ⟨-, t', hstep', hembeds⟩ | ⟨⟨fault, hstep', hclash⟩, hapart⟩
    · obtain ⟨out', hcalm', hout'⟩ := ih hembeds hlast fun hf => (hnumber hf).imp_right And.right
      refine ⟨out', .cons hflags' hstep' ?_ hcalm', hout'⟩
      rw [h.names, hembeds.names]
      exact List.prefix_append_right_inj _ |>.mpr hnames
    · -- the clash ends the reading in the host, and names are only added behind it
      refine ⟨_, .stop hflags' hstep', .inr ⟨⟨fault, rfl, hclash⟩, fun hf h => hapart hf ?_⟩⟩
      exact h.of_prefix (hcalm.names hlast)

/-- In a host without groups a text is read as it is alone, and if it is a clash that ends it. -/
theorem run_inside (h : Embeds host s s') (hnone : host.Groupless) (hcalm : Calm s cs out) :
    (∀ last, out = .ok last → ∃ last', s'.readAll cs = .ok last' ∧ Embeds host last last') ∧
      ∀ fault, out = .error fault → fault.cause.isClash = true → s'.readAll cs = .error fault := by
  -- without groups in the host there is nothing to clash with, so each step is the same
  induction hcalm generalizing s' with
  | nil s =>
    refine ⟨?_, fun _ hfault => (by cases hfault)⟩
    rintro _ ⟨⟩
    exact ⟨s', rfl, h⟩
  | cons hflags hstep _ _ ih =>
    have hfollows := h.step hflags fun _ => .inl hnone.count_eq
    obtain ⟨-, t', hstep', hembeds⟩ := hfollows.exists_of_groupless hnone hstep
    rw [State.readAll_cons hstep']
    exact ih hembeds
  | stop hflags hstep =>
    refine ⟨fun _ hlast => (by cases hlast), ?_⟩
    rintro _ ⟨⟩ hclash
    have hfollows := h.step hflags fun _ => .inl hnone.count_eq
    rw [State.readAll, hfollows.clashes hnone _ hstep hclash]
    rfl

/-- A text that refers to no group by its number in such a host does not do so alone. -/
theorem refersByNumber_of_append (h : Embeds host s s') (hnone : host.Groupless)
    (hcalm : Calm s cs out) (hout : out = .ok last) (hc : c = ')' ∨ c = '\n')
    (hnumber : s'.refersByNumber (cs ++ c :: v) = false) : s.refersByNumber cs = false := by
  induction hcalm generalizing s' with
  | nil s =>
    rw [List.nil_append, State.refersByNumber, Bool.or_eq_false_iff, State.endsReference, h.mode]
      at hnumber
    rw [State.refersByNumber]
    split
    · -- neither character goes on with a number, so it would have ended the reference
      rename_i hmode
      rw [hmode] at hnumber
      rcases hc with rfl | rfl <;> simp [Text.isAsciiDigit, isOctalDigit] at hnumber
    · rfl
  | cons hflags hstep _ _ ih =>
    have hfollows := h.step hflags fun _ => .inl hnone.count_eq
    obtain ⟨-, t', hstep', hembeds⟩ := hfollows.exists_of_groupless hnone hstep
    rw [List.cons_append, State.refersByNumber_cons hstep', Bool.or_eq_false_iff,
      State.endsReference, h.mode] at hnumber
    rw [State.refersByNumber_cons hstep, ih hembeds hout hnumber.2, Bool.or_false]
    exact hnumber.1
  | stop => cases hout

end Embeds

/-! ## The closing parenthesis -/

/-- A construct that the end settles is settled by a parenthesis or a newline just as well. -/
theorem State.step_of_settle (hsettle : s.settle = .ok t) (hc : c = ')' ∨ c = '\n')
    (hcomment : s.mode ≠ .comment false) : s.step c = t.readPlain c := by
  have hdigit : Text.isAsciiDigit c = false := by rcases hc with rfl | rfl <;> rfl
  have hoctal : isOctalDigit c = false := by rcases hc with rfl | rfl <;> rfl
  have hother : c ≠ '?' ∧ c ≠ '+' ∧ c ≠ ',' ∧ c ≠ '}' := by rcases hc with rfl | rfl <;> decide
  rw [State.settle] at hsettle
  rw [State.step]
  -- by the construct that is open: most cannot end there, so there is nothing to show
  revert hsettle hcomment
  cases s.mode with
  | plain =>
    rintro ⟨⟩ -
    rfl
  | quantified =>
    rintro ⟨⟩ -
    simp [hother]
  | braces least most =>
    rintro ⟨⟩ -
    simp [State.readBraces, hdigit, hother]
  | comment escaped =>
    cases escaped with
    | true => nofun
    | false => exact fun _ hcomment => absurd rfl hcomment
  | octal slot digits =>
    cases slot with
    | item =>
      intro (hsettle : s.deliverOctal .item digits = .ok t) _
      change s.readOctal .item digits c = _
      rw [State.readOctal, hoctal, Bool.and_false, if_neg Bool.false_ne_true, hsettle]
      rw [State.deliverOctal] at hsettle
      split at hsettle
      · cases hsettle
      · cases hsettle
        rfl
    | _ => nofun
  | reference digits =>
    intro (hsettle : s.deliverReference digits = .ok t) _
    change s.readReference digits c = _
    rw [State.readReference_of_not_digit hdigit hoctal, hsettle]
    rfl
  | groupComment escaped => cases escaped <;> nofun
  | name purpose name escaped => cases escaped <;> cases name <;> nofun
  | _ => nofun

/-- And if it cannot be settled for a clash, then it cannot be there either. -/
theorem State.step_of_settle_error (hsettle : s.settle = .error fault)
    (hclash : fault.cause.isClash = true) (hc : c = ')' ∨ c = '\n') : s.step c = .error fault := by
  have hdigit : Text.isAsciiDigit c = false := by rcases hc with rfl | rfl <;> rfl
  have hoctal : isOctalDigit c = false := by rcases hc with rfl | rfl <;> rfl
  obtain ⟨digits, hmode, hdeliver⟩ := State.mode_of_settle hsettle hclash
  rw [State.step, hmode]
  change s.readReference digits c = _
  rw [State.readReference_of_not_digit hdigit hoctal, hdeliver]
  rfl

namespace Embeds

variable {before : State} {hplain : before.Plain} {fs : Flags}

/--
The parentheses are closed after an expression, behind a newline where white space is skipped. A
comment at the end of the expression takes the newline.
-/
theorem readAll_ending (h : Embeds (.inside before hplain fs) last last')
    (hsettle : last.settle = .ok done) (houter : done.outer = []) {newline : Bool}
    (hverbose : newline = true → fs.verbose = true)
    (hcomment : newline = false → last.mode ≠ .comment false) :
    last'.readAll (if newline then ['\n', ')'] else [')']) = .ok (before.after done) := by
  have hnone := Host.groupless_inside before hplain fs
  obtain ⟨-, done', hsettle', hembeds⟩ :=
    (h.settle fun _ => .inl hnone.count_eq).exists_of_groupless hnone hsettle
  cases newline with
  | true =>
    have hskips : done'.level.flags.verbose = true := by
      rw [hembeds.agree.verbose, hembeds.level_flags houter]
      exact hverbose rfl
    -- a comment takes the newline, and anything else is settled by it
    have hline : last'.step '\n' = .ok (done'.enter .plain) := by
      by_cases hopen : last'.mode = .comment false
      · obtain rfl : last' = done' := by
          rw [State.settle, hopen] at hsettle'
          exact Except.ok.inj hsettle'
        rw [State.step, hopen]
        rfl
      · rw [State.step_of_settle hsettle' (.inr rfl) hopen]
        exact State.readPlain_newline hskips
    have hstep : (done'.enter .plain).step ')' = .ok (before.after done) :=
      (State.readPlain_parenthesis _).trans ((hembeds.enter .plain).close_of_outer houter)
    rw [if_pos rfl, State.readAll_cons hline, State.readAll_cons hstep]
    rfl
  | false =>
    have hopen := hcomment rfl
    rw [← h.mode] at hopen
    have hstep : last'.step ')' = .ok (before.after done) := by
      rw [State.step_of_settle hsettle' (.inl rfl) hopen, State.readPlain_parenthesis,
        hembeds.close_of_outer houter]
    rw [if_neg Bool.false_ne_true, State.readAll_cons hstep]
    rfl

/-- The parentheses are not closed after an expression that ends in a clash. -/
theorem readAll_ending_error (h : Embeds (.inside before hplain fs) last last')
    (hsettle : last.settle = .error fault) (hclash : fault.cause.isClash = true) (newline : Bool) :
    last'.readAll (if newline then ['\n', ')'] else [')']) = .error fault := by
  have hnone := Host.groupless_inside before hplain fs
  have hsettle' := (h.settle fun _ => .inl hnone.count_eq).clashes hnone fault hsettle hclash
  cases newline with
  | true =>
    rw [if_pos rfl, State.readAll, State.step_of_settle_error hsettle' hclash (.inr rfl)]
    rfl
  | false =>
    rw [if_neg Bool.false_ne_true, State.readAll,
      State.step_of_settle_error hsettle' hclash (.inl rfl)]
    rfl

end Embeds

end Abnf.Regex
