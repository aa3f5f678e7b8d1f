import Abnf.Proofs.Regex.Reading
import Abnf.Proofs.Regex.Surroundings
import Mathlib.Data.List.Forall2

/-!
# Reading an expression inside of another

A text that can be read as an expression of its own can be read inside of another one, behind its
groups or in its parentheses. The two readings go through the same modes and build the same nodes,
except that the groups are numbered on from those of the expression around it: `Embeds` relates
their states, and `Follows` says what a character makes of two states that are related.

Some things may get in the way. Flags for the whole expression are not read inside of another, and a
name may be that of a group of the other expression already. And a group told by its number is
another one when there are groups before, so that it may still be open, or may take more or less
than the one that is meant. A host can be `faithful`, and then such numbers are kept out; if it is
not, they are read as they come, and all that is known is what they can lead to (`Cause.isClash`).
-/

namespace Abnf.Regex

variable {k m n : Nat} {s s' t t' : State} {c : Char}

/-! ## Flags -/

/-- The flags that say how a text is read are the same. -/
structure Flags.Agree (fs fs' : Flags) : Prop where
  ascii : fs'.ascii = fs.ascii
  ignoreCase : fs'.ignoreCase = fs.ignoreCase
  multiline : fs'.multiline = fs.multiline
  dotAll : fs'.dotAll = fs.dotAll
  verbose : fs'.verbose = fs.verbose

namespace Flags.Agree

variable {fs fs' : Flags}

/-- They say the same of case. -/
theorem caseRule (h : fs.Agree fs') : fs'.caseRule = fs.caseRule := by
  rw [Flags.caseRule, Flags.caseRule, h.ascii, h.ignoreCase]

/-- One flag more, in both. -/
theorem set (h : fs.Agree fs') (f : Flag) (on : Bool) : (fs.set f on).Agree (fs'.set f on) := by
  obtain ⟨ha, hi, hm, hs, hx⟩ := h
  cases f <;> constructor <;> simp only [Flags.set, ha, hi, hm, hs, hx]

theorem foldl_set (h : fs.Agree fs') (flags : List Flag) (on : Bool) :
    (flags.foldl (·.set · on) fs).Agree (flags.foldl (·.set · on) fs') := by
  induction flags generalizing fs fs' with
  | nil => exact h
  | cons f flags ih => exact ih (h.set f on)

/-- The flags of a group that switches some on and some off. -/
theorem within (h : fs.Agree fs') (on off : List Flag) :
    (fs.within on off).Agree (fs'.within on off) := by
  refine foldl_set (foldl_set ?_ on true) off false
  split
  · exact ⟨rfl, h.ignoreCase, h.multiline, h.dotAll, h.verbose⟩
  · exact h

end Flags.Agree

/-- Flags for the whole expression only come to those that there are. -/
theorem Flags.verbose_insertAll {fs : Flags} (h : fs.verbose = true) (on : List Flag) :
    (fs.insertAll on).verbose = true := by
  induction on generalizing fs with
  | nil => exact h
  | cons f on ih => exact @ih (fs.set f true) (by cases f <;> first | exact h | rfl)

/-! ## Items, alternatives and open groups -/

/-- More groups may have been counted since. -/
theorem Shifts.mono {a b : Node} (h : Shifts k n a b) (hle : n ≤ m) : Shifts k m a b := by
  induction h with
  | empty => exact .empty
  | char rule code => exact .char rule code
  | any newline => exact .any newline
  | set rule set => exact .set rule set
  | anchor anchor => exact .anchor anchor
  | again rule hpos hbound => exact .again rule hpos (Nat.le_trans hbound hle)
  | ifTaken hpos _ _ iha ihb => exact .ifTaken hpos iha ihb
  | seq _ _ iha ihb => exact .seq iha ihb
  | alt _ _ iha ihb => exact .alt iha ihb
  | capture hpos hbound _ ih => exact .capture hpos (Nat.le_trans hbound hle) ih
  | iterate lazy least most _ ih => exact .iterate lazy least most ih
  | atomic _ ih => exact .atomic ih
  | ahead negated _ ih => exact .ahead negated ih
  | behind negated width _ ih => exact .behind negated width ih

/-- The same item, over nodes that are related. -/
inductive Item.Alike (R : Node → Node → Prop) : Item → Item → Prop where
  | anchor (anchor : Anchor) : Alike R (.anchor anchor) (.anchor anchor)
  | single {a b : Node} (h : R a b) : Alike R (.single a) (.single b)
  | repeated {a b : Node} (greed : Greed) (least : Nat) (most : Option Nat) (h : R a b) :
      Alike R (.repeated greed least most a) (.repeated greed least most b)

/-- The same alternatives, over nodes that are related. -/
structure Level.Alike (R : Node → Node → Prop) (l l' : Level) : Prop where
  flags : l.flags.Agree l'.flags
  branches : List.Forall₂ R l.branches l'.branches
  items : List.Forall₂ (Item.Alike R) l.items l'.items

section

variable {R S : Node → Node → Prop} {i i' : Item} {l l' : Level}

theorem Item.Alike.imp (h : i.Alike R i') (himp : ∀ a b, R a b → S a b) : i.Alike S i' := by
  cases h with
  | anchor anchor => exact .anchor anchor
  | single h => exact .single (himp _ _ h)
  | repeated greed least most h => exact .repeated greed least most (himp _ _ h)

theorem Level.Alike.imp (h : l.Alike R l') (himp : ∀ a b, R a b → S a b) : l.Alike S l' where
  flags := h.flags
  branches := h.branches.imp himp
  items := h.items.imp fun _ _ h => h.imp himp

/-- Neither has an item yet, or the latest items are alike and so are those before them. -/
theorem Level.Alike.items_cases (h : l.Alike R l') :
    (l.items = [] ∧ l'.items = []) ∨ ∃ item rest item' rest',
      l.items = item :: rest ∧ l'.items = item' :: rest' ∧ item.Alike R item' ∧
        List.Forall₂ (Item.Alike R) rest rest' := by
  have hitems := h.items
  cases hs : l.items with
  | nil =>
    rw [hs] at hitems
    exact .inl ⟨rfl, List.forall₂_nil_left_iff.mp hitems⟩
  | cons item rest =>
    rw [hs] at hitems
    obtain ⟨item', rest', hitem, hrest, hs'⟩ := List.forall₂_cons_left_iff.mp hitems
    exact .inr ⟨item, rest, item', rest', rfl, hs', hitem, hrest⟩

/-- Items that are alike say nodes that are. -/
theorem Item.Alike.node (h : i.Alike (Shifts k n) i') : Shifts k n i.node i'.node := by
  cases h with
  | anchor anchor => exact .anchor anchor
  | single h => exact h
  | repeated greed least most h =>
    cases greed with
    | greedy => exact .iterate false least most h
    | lazy => exact .iterate true least most h
    | possessive => exact .atomic (.iterate false least most (.atomic h))

/-- So do the alternatives that are still open, put together from their items. -/
theorem Level.Alike.branch (h : l.Alike (Shifts k n) l') : Shifts k n l.branch l'.branch := by
  -- the items stand in reverse order, so the fold is about what comes behind them
  suffices hfold : ∀ {items items' : List Item} {rest rest' : Node},
      List.Forall₂ (Item.Alike (Shifts k n)) items items' → Shifts k n rest rest' →
        Shifts k n (items.foldl (fun rest item => .seq item.node rest) rest)
          (items'.foldl (fun rest item => .seq item.node rest) rest') from
    hfold h.items .empty
  intro items items' rest rest' hitems hrest
  induction hitems generalizing rest rest' with
  | nil => exact hrest
  | cons hitem _ ih => exact ih (.seq hitem.node hrest)

/-- And all alternatives together. -/
theorem Level.Alike.body (h : l.Alike (Shifts k n) l') : Shifts k n l.body l'.body := by
  suffices hfold : ∀ {branches branches' : List Node} {rest rest' : Node},
      List.Forall₂ (Shifts k n) branches branches' → Shifts k n rest rest' →
        Shifts k n (branches.foldl (fun rest branch => .alt branch rest) rest)
          (branches'.foldl (fun rest branch => .alt branch rest) rest') from
    hfold h.branches h.branch
  intro branches branches' rest rest' hbranches hrest
  induction hbranches generalizing rest rest' with
  | nil => exact hrest
  | cons hbranch _ ih => exact ih (.alt hbranch hrest)

/-- The choice between two alternatives goes by the same group. -/
theorem Level.Alike.choice (h : l.Alike (Shifts k n) l') {group : Nat} (hpos : 0 < group) :
    Shifts k n (l.choice group) (l'.choice (group + k)) := by
  have hbranches := h.branches
  unfold Level.choice
  cases hs : l.branches with
  -- one alternative: what holds if the group took nothing is empty
  | nil =>
    rw [hs] at hbranches
    rw [List.forall₂_nil_left_iff.mp hbranches]
    exact .ifTaken hpos h.branch .empty
  | cons yes rest =>
    rw [hs] at hbranches
    obtain ⟨yes', rest', hyes, -, hs'⟩ := List.forall₂_cons_left_iff.mp hbranches
    rw [hs']
    exact .ifTaken hpos hyes h.branch

end

/-! ## An expression around another -/

/-- What an expression is read in, and the flags that it has of its own. -/
structure Host where
  /-- The groups around it that it does not count, all of which stand before it. -/
  groups : List Group := []
  /-- The open groups that it stands in with what they interrupt, the innermost first. -/
  around : List (Opening × Level) := []
  /-- No open group makes anything of its body. -/
  plain : ∀ o ∈ around, o.1 = .plain := by exact fun _ h => absurd h List.not_mem_nil
  /-- The numbers by which groups have been asked for before it. -/
  asked : List Nat := []
  /-- The flags of the whole expression that it is when read on its own. -/
  flags : Flags
  /-- The flags of the whole expression that it is read in. -/
  whole : Flags
  /-- Whether all references have to go to the same groups. -/
  faithful : Bool := true

namespace Host

/-- How many groups come before those of the expression. -/
def count (host : Host) : Nat := host.groups.length

/-- No name is the name of a group of the host. -/
def Apart (host : Host) (names : List (Option (List Char))) : Prop :=
  ∀ name, some name ∈ names → some name ∉ host.groups.map (·.name)

/-- The host is read faithfully and counts no groups of its own. -/
structure Groupless (host : Host) : Prop where
  faithful : host.faithful = true
  none : host.groups = []

/-- In a faithful host a node is the same, its groups numbered on. -/
def Renumbers (host : Host) (n : Nat) (a b : Node) : Prop :=
  host.faithful = true → Shifts host.count n a b

/-- The same kind of group, under another number if it is a capture. -/
inductive Opens (host : Host) (n : Nat) : Opening → Opening → Prop where
  | plain : Opens host n .plain .plain
  | capture {g : Nat} (hpos : 0 < g) (hle : g ≤ n) :
      Opens host n (.capture g) (.capture (g + host.count))
  | atomic : Opens host n .atomic .atomic
  | ahead (negated : Bool) : Opens host n (.ahead negated) (.ahead negated)
  | behind (negated : Bool) (groups : Nat) :
      Opens host n (.behind negated groups) (.behind negated (groups + host.count))
  | condition {g g' : Nat} (h : host.faithful = true → 0 < g ∧ g' = g + host.count) :
      Opens host n (.condition g) (.condition g')

/-- The same open groups, the outermost of which stands in the host. -/
inductive Nests (host : Host) (n : Nat) :
    Level → List (Opening × Level) → Level → List (Opening × Level) → Prop where
  | whole {l l' : Level} (h : l.Alike (host.Renumbers n) l') (hflags : l.flags = host.flags) :
      Nests host n l [] l' host.around
  | inner {l l' around around' : Level} {opening opening' : Opening}
      {outer outer' : List (Opening × Level)} (hopening : host.Opens n opening opening')
      (h : l.Alike (host.Renumbers n) l') (hnests : Nests host n around outer around' outer') :
      Nests host n l ((opening, around) :: outer) l' ((opening', around') :: outer')

section

variable {host : Host} {l l' : Level} {outer outer' : List (Opening × Level)}
  {names more : List (Option (List Char))}

/-- Fewer names keep apart if more do. -/
theorem Apart.of_prefix (h : host.Apart more) (hfront : names <+: more) : host.Apart names :=
  fun name hname => h name (hfront.subset hname)

theorem apart_nil (host : Host) : host.Apart [] := fun _ => nofun

/-- A host without groups has no names. -/
theorem Groupless.apart (h : host.Groupless) (names : List (Option (List Char))) :
    host.Apart names := by
  intro name _
  rw [h.none]
  exact List.not_mem_nil

theorem Groupless.count_eq (h : host.Groupless) : host.count = 0 := by
  rw [count, h.none]
  rfl

/-- No look behind is open around the expression. -/
theorem foldl_around (host : Host) (found : Option Nat) :
    (host.around.foldl (fun found o => match o.1 with
      | .behind _ groups => some groups
      | _ => found) found) = found := by
  have hplain := host.plain
  generalize host.around = around at hplain
  induction around with
  | nil => rfl
  | cons o around ih =>
    rw [List.forall_mem_cons] at hplain
    rw [List.foldl_cons, hplain.1, ih hplain.2]

/-- More groups may have been counted since. -/
theorem Renumbers.mono {a b : Node} (h : host.Renumbers n a b) (hle : n ≤ m) :
    host.Renumbers m a b :=
  fun hfaithful => (h hfaithful).mono hle

theorem Opens.mono {o o' : Opening} (h : host.Opens n o o') (hle : n ≤ m) : host.Opens m o o' := by
  cases h with
  | plain => exact .plain
  | capture hpos hbound => exact .capture hpos (Nat.le_trans hbound hle)
  | atomic => exact .atomic
  | ahead negated => exact .ahead negated
  | behind negated groups => exact .behind negated groups
  | condition h => exact .condition h

theorem Nests.mono (h : host.Nests n l outer l' outer') (hle : n ≤ m) :
    host.Nests m l outer l' outer' := by
  have himp : ∀ a b, host.Renumbers n a b → host.Renumbers m a b := fun _ _ h => h.mono hle
  induction h with
  | whole h hflags => exact .whole (h.imp himp) hflags
  | inner hopening h _ ih => exact .inner (hopening.mono hle) (h.imp himp) ih

/-- The innermost alternatives are alike. -/
theorem Nests.level (h : host.Nests n l outer l' outer') : l.Alike (host.Renumbers n) l' := by
  cases h with
  | whole h => exact h
  | inner _ h => exact h

theorem Nests.flags_of_whole (h : host.Nests n l [] l' outer') : l.flags = host.flags := by
  cases h with
  | whole _ hflags => exact hflags

theorem Nests.eq_around (h : host.Nests n l [] l' outer') : outer' = host.around := by
  cases h with
  | whole => rfl

/-- Open groups around the expression stay open. -/
theorem Nests.ne_nil (h : host.Nests n l outer l' outer') (haround : host.around ≠ []) :
    outer' ≠ [] := by
  cases h with
  | whole => exact haround
  | inner => exact List.cons_ne_nil _ _

/-- The innermost group goes on, under the same flags. -/
theorem Nests.goOn {next next' : Level} (h : host.Nests n l outer l' outer')
    (hnext : next.Alike (host.Renumbers n) next') (hflags : next.flags = l.flags) :
    host.Nests n next outer next' outer' := by
  cases h with
  | whole _ hwhole => exact .whole hnext (hflags.trans hwhole)
  | inner hopening _ hnests => exact .inner hopening hnext hnests

/-- The outermost look behind is the same, and there were `k` more groups when it was opened. -/
theorem Nests.foldl_behind (h : host.Nests n l outer l' outer') (found : Option Nat) :
    (outer'.foldl (fun found o => match o.1 with
      | .behind _ groups => some groups
      | _ => found) (found.map (· + host.count))) =
      (outer.foldl (fun found o => match o.1 with
        | .behind _ groups => some groups
        | _ => found) found).map (· + host.count) := by
  induction h generalizing found with
  | whole => exact host.foldl_around _
  -- only a look behind is taken note of, with the groups of the host counted in
  | inner hopening _ _ ih =>
    cases hopening with
    | behind negated groups => exact ih (some groups)
    | _ => exact ih found

end

end Host

/-- The names of the groups in order of their numbers. -/
def State.names (s : State) : List (Option (List Char)) := s.groups.map (·.name)

/-- A state of reading an expression, and the state of reading it in a host. -/
structure Embeds (host : Host) (s s' : State) : Prop where
  nests : host.Nests s.groups.length s.level s.outer s'.level s'.outer
  mode : s'.mode = s.mode
  /-- Its groups come behind those of the host, and none has the name of one of them. -/
  names : s'.names = host.groups.map (·.name) ++ s.names
  apart : host.Apart s.names
  groups : host.faithful = true → s'.groups = host.groups ++ s.groups
  asked : s'.asked = host.asked ++ s.asked
  flags : s.flags = host.flags
  flags' : s'.flags = host.whole

/-! ## What a reader makes of two states -/

/--
Whether an expression may be refused for this behind others, though it is none alone: a name is
given twice, or what has the number of a group is another group.
-/
def Cause.isClash : Cause → Bool
  | nameTaken _ _ _ | openGroup | variableLookbehind | lookbehindTooWide => true
  | _ => false

/-- The reading ends because groups get into each other's way. -/
def Clashes (next : Except Fault State) : Prop :=
  ∃ fault, next = .error fault ∧ fault.cause.isClash = true

/--
What a reader makes of two states. If it goes on from the first, then from the second as well and in
the same way, unless there is a clash; in a faithful host it must be one of names. And in a host
without groups a clash is the same one.
-/
structure Follows (host : Host) (s : State) (next next' : Except Fault State) : Prop where
  goesOn : ∀ t, next = .ok t →
    (s.names <+: t.names ∧ ∃ t', next' = .ok t' ∧ Embeds host t t') ∨
      Clashes next' ∧ (host.faithful = true → ¬ host.Apart t.names)
  clashes : host.Groupless → ∀ fault, next = .error fault → fault.cause.isClash = true →
    next' = .error fault

namespace Follows

variable {host : Host} {next next' other other' : Except Fault State}

/-- Both readings go on. -/
theorem ok (hnames : s.names <+: t.names) (h : Embeds host t t') :
    Follows host s (.ok t) (.ok t') where
  goesOn := by
    rintro _ ⟨⟩
    exact .inl ⟨hnames, t', rfl, h⟩
  clashes := by
    intro _ _ hnext
    cases hnext

/-- Both readings end in the same way. -/
theorem refuse {cause : Cause} {back : Nat} :
    Follows host s (State.refuse cause back) (State.refuse cause back) where
  goesOn := by
    intro _ hnext
    rw [State.refuse] at hnext
    cases hnext
  clashes := fun _ _ hfault _ => hfault

/-- The expression cannot be read alone, but not for a clash. -/
theorem error {fault : Fault} (h : fault.cause.isClash = false) :
    Follows host s (.error fault) next' where
  goesOn := by
    intro _ hnext
    cases hnext
  clashes := by
    rintro _ _ ⟨⟩ hclash
    rw [h] at hclash
    cases hclash

/-- In a host that is not faithful nothing is said of what cannot be read alone. -/
theorem loose (hfaithful : host.faithful = false) (h : ∀ t, next = .ok t →
    (s.names <+: t.names ∧ ∃ t', next' = .ok t' ∧ Embeds host t t') ∨ Clashes next') :
    Follows host s next next' where
  goesOn := fun t ht => (h t ht).imp_right fun hclash => ⟨hclash, by simp [hfaithful]⟩
  clashes := fun hnone => absurd hnone.faithful (by simp [hfaithful])

/-- Such a host may refuse what is read alone, if it has one of these reasons. -/
theorem clash (hfaithful : host.faithful = false) (h : Clashes next') :
    Follows host s next next' :=
  loose hfaithful fun _ _ => .inr h

theorem ite {p : Prop} [Decidable p] (h : Follows host s next next')
    (hother : Follows host s other other') :
    Follows host s (if p then next else other) (if p then next' else other') := by
  split
  · exact h
  · exact hother

/-- In a host without groups nothing gets in the way. -/
theorem exists_of_groupless (h : Follows host s next next') (hnone : host.Groupless)
    (hnext : next = .ok t) : s.names <+: t.names ∧ ∃ t', next' = .ok t' ∧ Embeds host t t' := by
  rcases h.goesOn t hnext with hembeds | ⟨-, hapart⟩
  · exact hembeds
  · exact absurd (hnone.apart _) (hapart hnone.faithful)

/-- What follows a step that gives no names. -/
theorem bind {f f' : State → Except Fault State} (h : Follows host s next next')
    (hnames : ∀ t, next = .ok t → t.names = s.names) (hapart : host.Apart s.names)
    (hf : ∀ t t', next = .ok t → Embeds host t t' → Follows host t (f t) (f' t')) :
    Follows host s (next >>= f) (next' >>= f') where
  -- nothing asks for a name between the two steps, so what clashes in the first ends both
  goesOn := by
    intro u hu
    obtain ⟨t, ht, hu⟩ := Except.bind_eq_ok.mp hu
    rcases h.goesOn t ht with ⟨-, t', ht', hembeds⟩ | ⟨⟨fault, hfault, hclash⟩, hclashing⟩
    · rw [ht', ← hnames t ht]
      exact (hf t t' ht hembeds).goesOn u hu
    · refine .inr ⟨⟨fault, by rw [hfault]; rfl, hclash⟩, fun hfaithful => ?_⟩
      exact absurd (hnames t ht ▸ hapart) (hclashing hfaithful)
  clashes := by
    intro hnone fault hfault hclash
    rcases Except.bind_eq_error.mp hfault with hfault | ⟨t, ht, hfault⟩
    · rw [h.clashes hnone fault hfault hclash]
      rfl
    · obtain ⟨-, t', ht', hembeds⟩ := h.exists_of_groupless hnone ht
      rw [ht']
      exact (hf t t' ht hembeds).clashes hnone fault hfault hclash

/-- Names that were given in between are names that have been given. -/
theorem of_names (h : Follows host t next next') (hnames : s.names <+: t.names) :
    Follows host s next next' where
  goesOn := by
    intro u hu
    rcases h.goesOn u hu with ⟨hnames', hembeds⟩ | hclash
    · exact .inl ⟨hnames.trans hnames', hembeds⟩
    · exact .inr hclash
  clashes := h.clashes

end Follows

namespace Embeds

variable {host : Host}

theorem level (h : Embeds host s s') :
    s.level.Alike (host.Renumbers s.groups.length) s'.level :=
  h.nests.level

theorem agree (h : Embeds host s s') : s.level.flags.Agree s'.level.flags := h.level.flags

/-- The groups of the host come before those of the expression. -/
theorem length_groups (h : Embeds host s s') :
    s'.groups.length = s.groups.length + host.count := by
  have hlength := congrArg List.length h.names
  rw [List.length_append, State.names, State.names, List.length_map, List.length_map,
    List.length_map] at hlength
  rw [Host.count]
  omega

theorem groups_of_groupless (h : Embeds host s s') (hnone : host.Groupless) :
    s'.groups = s.groups := by
  rw [h.groups hnone.faithful, hnone.none, List.nil_append]

/-! ## What a reader does to a state -/

/-- The mode changes in both. -/
theorem enter (h : Embeds host s s') (mode : Mode) : Embeds host (s.enter mode) (s'.enter mode) :=
  ⟨h.nests, rfl, h.names, h.apart, h.groups, h.asked, h.flags, h.flags'⟩

/-- The innermost group goes on, under the same flags. -/
theorem goOn (h : Embeds host s s') {next next' : Level} (mode : Mode)
    (hnext : next.Alike (host.Renumbers s.groups.length) next')
    (hflags : next.flags = s.level.flags) :
    Embeds host { s with level := next, mode := mode } { s' with level := next', mode := mode } :=
  ⟨h.nests.goOn hnext hflags, rfl, h.names, h.apart, h.groups, h.asked, h.flags, h.flags'⟩

/-- One more item. -/
theorem push (h : Embeds host s s') {i i' : Item}
    (hitem : i.Alike (host.Renumbers s.groups.length) i') : Embeds host (s.push i) (s'.push i') :=
  h.goOn .plain ⟨h.agree, h.level.branches, .cons hitem h.level.items⟩ rfl

/-- One more item that is a node. -/
theorem pushNode (h : Embeds host s s') {node node' : Node}
    (hnode : host.Renumbers s.groups.length node node') :
    Embeds host (s.push (.single node)) (s'.push (.single node')) :=
  h.push (.single hnode)

/-- One more character, whose case goes by the same flags. -/
theorem pushCode (h : Embeds host s s') (code : Nat) :
    Embeds host (s.pushCode code) (s'.pushCode code) := by
  rw [State.pushCode, State.pushCode, h.agree.caseRule]
  exact h.pushNode fun _ => .char _ _

theorem pushSet (h : Embeds host s s') (set : CharSet) :
    Embeds host (s.pushSet set) (s'.pushSet set) := by
  rw [State.pushSet, State.pushSet, h.agree.caseRule]
  exact h.pushNode fun _ => .set _ _

theorem renumbers_branch (h : Embeds host s s') :
    host.Renumbers s.groups.length s.level.branch s'.level.branch :=
  fun hfaithful => (h.level.imp fun _ _ hnode => hnode hfaithful).branch

/-- The alternatives so far are closed and another begins. -/
theorem nextBranch (h : Embeds host s s') : Embeds host s.nextBranch s'.nextBranch :=
  h.goOn .plain ⟨h.agree, .cons h.renumbers_branch h.level.branches, .nil⟩ rfl

/-- A bar is one too many in both or in neither. -/
theorem bar (h : Embeds host s s') : Follows host s s.bar s'.bar := by
  have hbranches := h.level.branches
  have hnests := h.nests
  have hnext : Follows host s (.ok s.nextBranch) (.ok s'.nextBranch) :=
    .ok (List.prefix_refl _) h.nextBranch
  cases hs : s.outer with
  | nil =>
    -- neither alone nor in the host is there a choice that the bar could belong to
    rw [hs] at hnests
    have hs' : s'.Branching := by
      intro o ho group
      rw [hnests.eq_around] at ho
      rw [host.plain o (List.mem_of_mem_head? ho)]
      exact Opening.noConfusion
    have hbranching : s.Branching := by
      intro o ho
      rw [hs] at ho
      cases ho
    rw [hbranching.bar, hs'.bar]
    exact hnext
  -- it is one too many where a group decides between two alternatives
  | cons o outer =>
    unfold State.bar
    rw [hs]
    cases hs' : s'.outer with
    | nil =>
      rw [hs, hs'] at hnests
      cases hnests
    | cons o' outer' =>
      rw [hs, hs'] at hnests
      cases hnests with
      | inner hopening =>
        cases hopening with
        | condition =>
          cases hmore : s.level.branches with
          | nil =>
            rw [hmore] at hbranches
            rw [List.forall₂_nil_left_iff.mp hbranches]
            exact hnext
          | cons yes rest =>
            rw [hmore] at hbranches
            obtain ⟨_, _, -, -, hmore'⟩ := List.forall₂_cons_left_iff.mp hbranches
            rw [hmore']
            exact .refuse
        | _ => exact hnext

/-- A group is opened, under flags that agree. -/
theorem openGroup (h : Embeds host s s') {opening opening' : Opening} {fs fs' : Flags}
    (hopening : host.Opens s.groups.length opening opening') (hflags : fs.Agree fs') :
    Embeds host (s.openGroup opening fs) (s'.openGroup opening' fs') :=
  ⟨.inner hopening ⟨hflags, .nil, .nil⟩ h.nests, rfl, h.names, h.apart, h.groups, h.asked, h.flags,
    h.flags'⟩

/-- The next group has the same name and the next number, in the host as alone. -/
theorem openCapture (h : Embeds host s s') (name : Option (List Char))
    (hname : ∀ n ∈ name, some n ∉ host.groups.map (·.name)) :
    Embeds host (s.openCapture name) (s'.openCapture name) := by
  have hnames (s : State) : State.names { s with groups := s.groups ++ [⟨name, none⟩] } =
      s.names ++ [name] := List.map_append
  -- first the group is counted, then it is opened
  have hcounted : Embeds host { s with groups := s.groups ++ [⟨name, none⟩] }
      { s' with groups := s'.groups ++ [⟨name, none⟩] } := by
    refine ⟨h.nests.mono ?_, h.mode, ?_, ?_, fun hfaithful => ?_, h.asked, h.flags, h.flags'⟩
    · rw [List.length_append]
      omega
    · rw [hnames, hnames, h.names, List.append_assoc]
    · rw [hnames]
      intro n hn
      rcases List.mem_append.mp hn with hn | hn
      · exact h.apart n hn
      · exact hname n (List.mem_singleton.mp hn).symm
    · rw [h.groups hfaithful, List.append_assoc]
  have hnumber : s'.groups.length + 1 = s.groups.length + 1 + host.count := by
    rw [h.length_groups]
    omega
  rw [State.openCapture, State.openCapture, hnumber]
  refine hcounted.openGroup (.capture (Nat.succ_pos _) ?_) h.agree
  change s.groups.length + 1 ≤ (s.groups ++ [_]).length
  rw [List.length_append]
  exact Nat.le_refl _

/-- A member of a set, the end of a range or an item of its own, by where it is asked for. -/
theorem deliver (h : Embeds host s s') (slot : Slot) (member : Member) :
    Follows host s (s.deliver slot member) (s'.deliver slot member) := by
  have hnames : s.names <+: s.names := List.prefix_refl _
  cases slot with
  | item =>
    cases member with
    | one code => exact .ok hnames (h.pushCode code)
    | _ => exact .ok hnames (h.pushSet _)
  | member set => exact .ok hnames (h.enter _)
  | last set first =>
    cases first with
    | one code =>
      cases member with
      | one last => exact .ite .refuse (.ok hnames (h.enter _))
      | _ => exact .refuse
    | _ => exact .refuse

/-- The item before a quantifier can be repeated in both or in neither. -/
theorem quantify (h : Embeds host s s') (least : Nat) (most : Option Nat) :
    Follows host s (s.quantify least most) (s'.quantify least most) := by
  rw [State.quantify, State.quantify]
  rcases h.level.items_cases with ⟨hs, hs'⟩ | ⟨item, rest, item', rest', hs, hs', hitem, hrest⟩
  · rw [hs, hs']
    exact .refuse
  · rw [hs, hs']
    cases hitem with
    | anchor => exact .refuse
    | repeated => exact .refuse
    | single hbody =>
      exact .ok (List.prefix_refl _) (h.goOn .quantified ⟨h.agree, h.level.branches,
        .cons (.repeated .greedy least most hbody) hrest⟩ rfl)

/-- What comes behind a quantifier says how greedy it is. -/
theorem setGreed (h : Embeds host s s') (greed : Greed) :
    Embeds host (s.setGreed greed) (s'.setGreed greed) := by
  rw [State.setGreed, State.setGreed]
  rcases h.level.items_cases with ⟨hs, hs'⟩ | ⟨item, rest, item', rest', hs, hs', hitem, hrest⟩
  · rw [hs, hs']
    exact h.enter _
  · rw [hs, hs']
    cases hitem with
    | anchor => exact h.enter _
    | single => exact h.enter _
    | repeated _ least most hbody =>
      exact h.goOn .plain ⟨h.agree, h.level.branches,
        .cons (.repeated greed least most hbody) hrest⟩ rfl

theorem names_setGreed (s : State) (greed : Greed) : (s.setGreed greed).names = s.names := by
  rw [State.setGreed]
  split <;> rfl

/-! ## References and groups -/

/-- A group of the expression has its number in the host, be it that nothing else is known of it. -/
theorem exists_group (h : Embeds host s s') {group group' : Nat}
    (hgroup : group' = group + host.count ∨ group' = group) (hpos : 0 < group)
    (hle : group ≤ s.groups.length) : ∃ g, s'.groups[group' - 1]? = some g := by
  have hlength := h.length_groups
  exact ⟨_, List.getElem?_eq_getElem (show group' - 1 < s'.groups.length by omega)⟩

/-- In a faithful host it is the same group. -/
theorem getElem? (h : Embeds host s s') (hfaithful : host.faithful = true) {group : Nat}
    (hpos : 0 < group) : s'.groups[group + host.count - 1]? = s.groups[group - 1]? := by
  rw [h.groups hfaithful, List.getElem?_append_right (by rw [Host.count]; omega), Host.count]
  congr 1
  omega

/-- Hence a group takes as much, in so far as that is known. -/
theorem spanOf (h : Embeds host s s') (hfaithful : host.faithful = true) {group : Nat}
    (hpos : 0 < group) : s'.spanOf (group + host.count) = s.spanOf group := by
  rw [State.spanOf, State.spanOf, h.getElem? hfaithful hpos]

/-- The look behind that is open is the same, and more groups lie before it. -/
theorem groupsBeforeBehind? (h : Embeds host s s') :
    s'.groupsBeforeBehind? = s.groupsBeforeBehind?.map (· + host.count) :=
  h.nests.foldl_behind none

end Embeds

/-- What a reference asks of the group that it goes to. -/
theorem State.refer_eq_ok {group : Nat} {unknown : Cause} (h : s.refer group unknown = .ok t) :
    0 < group ∧ group ≤ s.groups.length ∧ s.hasClosed group = true ∧
      (s.groupsBeforeBehind?).any (· < group) = false ∧
      t = s.push (.single (.again s.level.flags.caseRule group)) := by
  rw [refer] at h
  by_cases hzero : group = 0
  · rw [if_pos hzero] at h
    cases h
  · rw [if_neg hzero] at h
    split at h
    · cases h
    · rename_i g hg
      have hlt := (List.getElem?_eq_some_iff.mp hg).1
      split at h
      · cases h
      · rename_i hclosed
        split at h
        · cases h
        · rename_i hbehind
          cases h
          refine ⟨Nat.pos_of_ne_zero hzero, by omega, ?_, by simpa using hbehind, rfl⟩
          rw [hasClosed, hg, Option.bind_some]
          simpa [Option.isSome_iff_ne_none] using hclosed

/-- A reference to a group that there is, is refused for two reasons only. -/
theorem State.refer_of_some {group : Nat} {unknown : Cause} {g : Group} (hpos : 0 < group)
    (hg : s.groups[group - 1]? = some g)
    (hbehind : (s.groupsBeforeBehind?).any (· < group) = false) :
    s.refer group unknown = if s.hasClosed group then
      .ok (s.push (.single (.again s.level.flags.caseRule group))) else refuse .openGroup := by
  rw [refer, if_neg (Nat.ne_of_gt hpos), hg, hasClosed, hg, hbehind, Option.bind_some]
  cases hspan : g.span <;> simp [hspan]

theorem clashes_refuse {cause : Cause} (h : cause.isClash = true) : Clashes (State.refuse cause) :=
  ⟨⟨cause, 0⟩, rfl, h⟩

namespace Embeds

variable {host : Host}

/--
The number of a group in the host: as its groups are numbered on, or, if the host is not faithful,
the number it has alone.
-/
def Numbered (host : Host) (group group' : Nat) : Prop :=
  group' = group + host.count ∨ host.faithful = false ∧ group' = group

theorem Numbered.eq_or {group group' : Nat} (h : Numbered host group group') :
    group' = group + host.count ∨ group' = group :=
  h.imp_right And.right

theorem Numbered.eq {group group' : Nat} (h : Numbered host group group')
    (hfaithful : host.faithful = true) : group' = group + host.count := by
  rcases h with h | ⟨hnot, -⟩
  · exact h
  · rw [hfaithful] at hnot
    cases hnot

/-- Groups in front of a look behind stay in front of it. -/
theorem any_groupsBeforeBehind? (h : Embeds host s s') {group group' : Nat}
    (hgroup : Numbered host group group')
    (hbehind : (s.groupsBeforeBehind?).any (· < group) = false) :
    (s'.groupsBeforeBehind?).any (· < group') = false := by
  rw [h.groupsBeforeBehind?]
  cases hopen : s.groupsBeforeBehind? with
  | none => rfl
  | some before =>
    rw [hopen] at hbehind
    have hle : ¬ before < group := by simpa using hbehind
    have hle' : ¬ before + host.count < group' := by
      rcases hgroup.eq_or with rfl | rfl <;> omega
    simpa using hle'

theorem hasClosed (h : Embeds host s s') (hfaithful : host.faithful = true) {group group' : Nat}
    (hgroup : Numbered host group group') (hpos : 0 < group) :
    s'.hasClosed group' = s.hasClosed group := by
  rw [hgroup.eq hfaithful, State.hasClosed, State.hasClosed, h.getElem? hfaithful hpos]

/-- A reference goes to the group with its number, if that is closed in the host as well. -/
theorem refer (h : Embeds host s s') {group group' : Nat} (hgroup : Numbered host group group')
    {unknown unknown' : Cause} (hunknown : unknown.isClash = false) :
    Follows host s (s.refer group unknown) (s'.refer group' unknown') := by
  cases hread : s.refer group unknown with
  -- what goes on alone goes on in the host, unless the group that has the number there is open
  | ok t =>
    obtain ⟨hpos, hle, hclosed, hbehind, rfl⟩ := State.refer_eq_ok hread
    obtain ⟨g, hg⟩ := h.exists_group hgroup.eq_or hpos hle
    have hpos' : 0 < group' := by rcases hgroup.eq_or with rfl | rfl <;> omega
    rw [State.refer_of_some hpos' hg (h.any_groupsBeforeBehind? hgroup hbehind)]
    split
    · rw [h.agree.caseRule]
      refine .ok (List.prefix_refl _) (h.pushNode fun hfaithful => ?_)
      rw [hgroup.eq hfaithful]
      exact .again _ hpos hle
    · rename_i hopen
      cases hfaithful : host.faithful with
      | false => exact .clash hfaithful (clashes_refuse rfl)
      | true => exact absurd ((h.hasClosed hfaithful hgroup hpos).trans hclosed) hopen
  | error fault =>
    refine ⟨fun _ hnext => (by cases hnext), ?_⟩
    rintro hnone _ ⟨⟩ hclash
    -- without groups of the host both ask for the same group
    have hsame : group' = group := by rw [hgroup.eq hnone.faithful, hnone.count_eq, Nat.add_zero]
    have hbehind : s'.groupsBeforeBehind? = s.groupsBeforeBehind? := by
      rw [h.groupsBeforeBehind?, hnone.count_eq]
      simp
    have hcause : fault.cause ≠ unknown := by
      rintro rfl
      rw [hunknown] at hclash
      cases hclash
    rw [hsame]
    rw [State.refer] at hread ⊢
    rw [h.groups_of_groupless hnone, hbehind]
    cases hfound : if group = 0 then none else s.groups[group - 1]? with
    | none =>
      rw [hfound] at hread
      cases hread
      exact absurd rfl hcause
    | some g =>
      rw [hfound] at hread
      simp only at hread ⊢
      split at hread
      · rename_i hopen
        rw [if_pos hopen]
        exact hread
      · split at hread
        · cases hread
          cases hclash
        · cases hread

/-- A condition is opened for the group with its number. -/
theorem openCondition (h : Embeds host s s') {group group' : Nat}
    (hgroup : Numbered host group group') (hpos : 0 < group) :
    Follows host s (s.openCondition group) (s'.openCondition group') := by
  have hinside : Embeds host (s.openGroup (.condition group) s.level.flags)
      (s'.openGroup (.condition group') s'.level.flags) :=
    h.openGroup (.condition fun hfaithful => ⟨hpos, hgroup.eq hfaithful⟩) h.agree
  have hok : Follows host s (.ok (s.openGroup (.condition group) s.level.flags))
      (.ok (s'.openGroup (.condition group') s'.level.flags)) := .ok (List.prefix_refl _) hinside
  have hbehind := h.any_groupsBeforeBehind? hgroup
  rw [State.openCondition, State.openCondition]
  rw [h.groupsBeforeBehind?] at hbehind ⊢
  cases hopen : s.groupsBeforeBehind? with
  | none => exact hok
  | some before =>
    rw [hopen] at hbehind
    simp only [Option.map_some, Option.any_some, decide_eq_false_iff_not] at hbehind ⊢
    cases hfaithful : host.faithful with
    | true =>
      -- the same group, which is closed or not, and lies before the look behind or not
      have hlt : before + host.count < group' ↔ before < group := by
        rw [hgroup.eq hfaithful, Nat.add_lt_add_iff_right]
      simp only [h.hasClosed hfaithful hgroup hpos, hlt]
      exact .ite .refuse (.ite .refuse hok)
    | false =>
      refine .loose hfaithful fun t ht => ?_
      split at ht
      · cases ht
      · split at ht
        · cases ht
        · rename_i hlt
          cases ht
          rw [if_neg (hbehind hlt)]
          split
          · exact .inr (clashes_refuse rfl)
          · exact .inl ⟨List.prefix_refl _, _, rfl, hinside⟩

/-- The host's group goes on where a group inside of it was closed. -/
theorem leave {l l' : Level} {outer outer' : List (Opening × Level)} (h : Embeds host s s')
    (hnests : host.Nests s.groups.length l outer l' outer') :
    Embeds host { s with level := l, outer := outer } { s' with level := l', outer := outer' } :=
  ⟨hnests, h.mode, h.names, h.apart, h.groups, h.asked, h.flags, h.flags'⟩

/-- A group that has been closed, and how much it can take. -/
def closed (span : Span) (g : Group) : Group := { g with span := some span }

theorem names_modify (groups : List Group) (i : Nat) (span : Span) :
    (groups.modify i (closed span)).map (·.name) = groups.map (·.name) := by
  refine List.ext_getElem? fun j => ?_
  rw [List.getElem?_map, List.getElem?_map, List.getElem?_modify, Option.map_eq_map,
    Option.map_map]
  congr 1
  funext g
  simp only [Function.comp_apply]
  split <;> rfl

/-- A capture is closed, and how much it can take is kept. -/
theorem closeCapture (h : Embeds host s s') {group : Nat} {body body' : Node} (hpos : 0 < group)
    (hbound : group ≤ s.groups.length) (hbody : host.Renumbers s.groups.length body body')
    {span span' : Span} (hspan : host.faithful = true → span' = span) :
    Embeds host
      ({ s with groups := s.groups.modify (group - 1) (closed span) }.push
        (.single (.capture group body)))
      ({ s' with groups := s'.groups.modify (group + host.count - 1) (closed span') }.push
        (.single (.capture (group + host.count) body'))) := by
  -- closing a group changes its entry only, which lies further on in the host
  have hmodified : Embeds host
      { s with groups := s.groups.modify (group - 1) (closed span) }
      { s' with groups := s'.groups.modify (group + host.count - 1) (closed span') } := by
    refine ⟨?_, h.mode, ?_, ?_, fun hfaithful => ?_, h.asked, h.flags, h.flags'⟩
    · rw [List.length_modify]
      exact h.nests
    · rw [State.names, State.names, names_modify, names_modify]
      exact h.names
    · rw [State.names, names_modify]
      exact h.apart
    · have hindex : group + host.count - 1 = host.groups.length + (group - 1) := by
        rw [Host.count]
        omega
      rw [h.groups hfaithful, hindex, hspan hfaithful]
      exact List.modifyTailIdx_add ..
  refine hmodified.pushNode fun hfaithful => ?_
  rw [List.length_modify]
  exact .capture hpos hbound (hbody hfaithful)

/-- A group is closed, and becomes what it was opened for. -/
theorem close (h : Embeds host s s') : Follows host s s.close s'.close := by
  have hnests := h.nests
  have hnames : s.names <+: s.names := List.prefix_refl _
  rw [State.close, State.close]
  cases hs : s.outer with
  | nil =>
    -- there is nothing to close, which is no clash
    simp only [State.checkFlags]
    split
    · exact .error rfl
    · split <;> exact .error rfl
  -- each kind of group becomes what it was opened for
  | cons o outer =>
    cases hs' : s'.outer with
    | nil =>
      rw [hs, hs'] at hnests
      cases hnests
    | cons o' outer' =>
      rw [hs, hs'] at hnests
      cases hnests with
      | inner hopening hlevel hnests =>
        have hleft := h.leave hnests
        have hsame (hfaithful : host.faithful = true) :
            s.level.Alike (Shifts host.count s.groups.length) s'.level :=
          hlevel.imp fun _ _ hnode => hnode hfaithful
        have hspan (hfaithful : host.faithful = true) := (hsame hfaithful).body.span
          fun _ hpos => hleft.spanOf hfaithful hpos
        cases hopening with
        | plain => exact .ok hnames (hleft.pushNode fun hf => (hsame hf).body)
        | atomic => exact .ok hnames (hleft.pushNode fun hf => .atomic (hsame hf).body)
        | ahead negated =>
          exact .ok hnames (hleft.pushNode fun hf => .ahead negated (hsame hf).body)
        | condition hgroup =>
          refine .ok hnames (hleft.pushNode fun hf => ?_)
          obtain ⟨hpos, rfl⟩ := hgroup hf
          exact (hsame hf).choice hpos
        | capture hpos hbound =>
          refine .ok ?_ (hleft.closeCapture hpos hbound (fun hf => (hsame hf).body) hspan)
          change s.names <+: List.map _ (s.groups.modify _ (closed _))
          rw [names_modify]
          exact hnames
        | behind negated groups =>
          cases hfaithful : host.faithful with
          | true =>
            simp only [hspan hfaithful]
            exact .ite .refuse (.ite (.ok hnames
              (hleft.pushNode fun hf => .behind negated _ (hsame hf).body)) .refuse)
          | false =>
            -- it may take another number of characters than alone
            refine .loose hfaithful fun t ht => ?_
            simp only at ht ⊢
            split at ht
            · cases ht
            · split at ht
              · cases ht
                split
                · exact .inr (clashes_refuse rfl)
                · split
                  · exact .inl ⟨hnames, _, rfl, hleft.pushNode fun hf => by simp [hfaithful] at hf⟩
                  · exact .inr (clashes_refuse rfl)
              · cases ht

end Embeds

end Abnf.Regex
