import Abnf.Proofs.Regex.Pieces

/-!
# Expressions put together from items

`Reads` and its companions say which language a text denotes, and hide what it is read as. Here a
text is given the very items that it adds, for every state between items: `ReadsItems`, `PushesNode`
and `ReadsBranches` say so of items in order, of one item that may be repeated, and of alternatives.
They fix two things about the flags in force, which is all that reading such a text asks for:
whether blanks are skipped, and when characters count as the same.

Reading is a function, so a text that reads as known alternatives and denotes a language gives them
that language (`ReadsBranches.denotes`).
-/

namespace Abnf.Regex

variable {s : State} {verbose : Bool} {rule : CaseRule} {cs u v : List Char} {items : List Item}
  {alternatives : List (List Item)} {node : Node} {c : Char} {L : Language Char}

/-! ## Nodes of items and alternatives -/

/-- Items one after the other. -/
def Item.sequence (items : List Item) : Node :=
  items.foldr (fun item rest => .seq item.node rest) .empty

/-- Alternatives in order. -/
def Item.choice : List (List Item) → Node
  | [] => .empty
  | [items] => sequence items
  | items :: more => .alt (sequence items) (choice more)

/-- The ways of alternatives are those of the first, then those of the second, and so on. -/
theorem Item.ways_choice (h : alternatives ≠ []) (p : Place) : (choice alternatives).ways p =
    alternatives.flatMap fun items => (sequence items).ways p := by
  induction alternatives with
  | nil => exact absurd rfl h
  | cons items more ih =>
    cases more with
    | nil => exact (List.append_nil _).symm
    | cons other more =>
      have hmore := ih (List.cons_ne_nil other more)
      rw [List.flatMap_cons, ← hmore]
      rfl

/-- One item alone has the ways of its node. -/
theorem Item.ways_choice_single (item : Item) (p : Place) :
    (choice [[item]]).ways p = item.node.ways p := by
  change (item.node.ways p).flatMap (fun q => [q]) = _
  rw [List.flatMap_singleton']

/-- Items in two parts are tried one part after the other. -/
theorem Item.ways_sequence_append (items more : List Item) (p : Place) :
    (sequence (items ++ more)).ways p = ((sequence items).ways p).flatMap (sequence more).ways := by
  induction items generalizing p with
  | nil => exact (List.flatMap_singleton _ _).symm
  | cons item items ih =>
    change (item.node.ways p).flatMap (sequence (items ++ more)).ways =
      ((item.node.ways p).flatMap (sequence items).ways).flatMap (sequence more).ways
    rw [List.flatMap_assoc]
    exact congrArg (List.flatMap · (item.node.ways p)) (funext ih)

theorem Level.branch_eq (level : Level) : level.branch = Item.sequence level.items.reverse := by
  rw [branch, Item.sequence, List.foldr_reverse]

/-! ## Texts as known items -/

/-- A state between two items, and what its flags say about the text to come. -/
structure State.Under (s : State) (verbose : Bool) (rule : CaseRule) : Prop where
  between : s.mode.Between
  verbose : s.level.flags.verbose = verbose
  rule : s.level.flags.caseRule = rule

theorem State.Under.add (h : s.Under verbose rule) {mode : Mode} (hmode : mode.Between) :
    (s.add items mode).Under verbose rule :=
  ⟨hmode, h.verbose, h.rule⟩

variable [Interpreter]

/-- A text reads as these items. -/
def ReadsItems (verbose : Bool) (rule : CaseRule) (cs : List Char) (items : List Item) : Prop :=
  ∀ s : State, s.Under verbose rule → ∃ mode, Mode.Between mode ∧
    s.readAll cs = .ok (s.add items.reverse mode)

/-- A text reads as this one item, which may be repeated. -/
def PushesNode (verbose : Bool) (rule : CaseRule) (cs : List Char) (node : Node) : Prop :=
  ∀ s : State, s.Under verbose rule → s.readAll cs = .ok (s.push (.single node))

/-- A text reads as these alternatives, behind those before it. -/
def ReadsBranches (verbose : Bool) (rule : CaseRule) (cs : List Char)
    (alternatives : List (List Item)) : Prop :=
  ∀ s : State, s.Under verbose rule → s.Branching → s.level.items = [] →
    ∃ level mode, Mode.Between mode ∧ s.readAll cs = .ok { s with level := level, mode := mode } ∧
      level.body = s.level.branches.foldl (fun rest branch => .alt branch rest)
        (Item.choice alternatives)

theorem PushesNode.reads (h : PushesNode verbose rule cs node) :
    ReadsItems verbose rule cs [.single node] := by
  intro s hs
  exact ⟨.plain, .inl rfl, h s hs⟩

theorem ReadsItems.nil : ReadsItems verbose rule [] [] := by
  intro s hs
  exact ⟨s.mode, hs.between, rfl⟩

theorem ReadsItems.append {later : List Item} (hu : ReadsItems verbose rule u items)
    (hv : ReadsItems verbose rule v later) : ReadsItems verbose rule (u ++ v) (items ++ later) := by
  intro s hs
  obtain ⟨mode, hmode, hread⟩ := hu s hs
  obtain ⟨mode', hmode', hread'⟩ := hv _ (hs.add hmode)
  refine ⟨mode', hmode', ?_⟩
  rw [State.readAll_of_append hread, hread', State.add_add, List.reverse_append]

/-! ## Characters and sets -/

theorem PushesNode.literal
    (h : c ∉ ['\\', '[', '(', ')', '|', '.', '^', '$', '*', '+', '?', '{'])
    (hskip : verbose → isPatternSpace c = false ∧ c ≠ '#') :
    PushesNode verbose rule [c] (.char rule c.toNat) := by
  intro s hs
  rw [State.readAll_literal h (hs.verbose ▸ hskip) hs.between, State.pushCode, hs.rule]

theorem PushesNode.escaped (h : c.isAlphanum = false) :
    PushesNode verbose rule ['\\', c] (.char rule c.toNat) := by
  intro s hs
  rw [State.readAll_escaped h hs.between, State.pushCode, hs.rule]

theorem PushesNode.control {code : Nat} (h : controlEscape? c = some code) :
    PushesNode verbose rule ['\\', c] (.char rule code) := by
  intro s hs
  rw [State.readAll_control h hs.between, State.pushCode, hs.rule]

theorem PushesNode.numbered {text : List Char} {code : Nat} (h : NamesCode text code) :
    PushesNode verbose rule ('\\' :: text) (.char rule code) := by
  intro s hs
  rw [State.readAll_numbered h hs.between, State.pushCode, hs.rule]

theorem PushesNode.set {members : List Member} (h : Brackets cs members) :
    PushesNode verbose rule ('[' :: cs) (.set rule { members := members }) := by
  intro s hs
  rw [State.readAll_cons hs.between.step_bracket, h, hs.rule]

/-- Where blanks are skipped, a space reads as nothing. -/
theorem ReadsItems.space : ReadsItems true rule [' '] [] := by
  intro s hs
  have hskip : s.readPlain ' ' = .ok (s.enter .plain) := by
    simp [State.readPlain, hs.verbose, isPatternSpace]
  refine ⟨.plain, .inl rfl, ?_⟩
  rw [State.readAll_singleton, hs.between.step (by decide) (by decide), hskip]
  rfl

/-! ## Alternatives, groups and repeats -/

theorem ReadsItems.branches (h : ReadsItems verbose rule cs items) :
    ReadsBranches verbose rule cs [items] := by
  intro s hs _ hempty
  obtain ⟨mode, hmode, hread⟩ := h s hs
  refine ⟨_, mode, hmode, hread, ?_⟩
  rw [Level.body, Level.branch_eq, hempty, List.append_nil, List.reverse_reverse]
  rfl

theorem ReadsItems.bar (hu : ReadsItems verbose rule u items)
    (hv : ReadsBranches verbose rule v alternatives) (hne : alternatives ≠ []) :
    ReadsBranches verbose rule (u ++ '|' :: v) (items :: alternatives) := by
  intro s hs hbranching hempty
  obtain ⟨mode, hmode, hread⟩ := hu s hs
  have hbar : (s.add items.reverse mode).step '|' = .ok (s.add items.reverse mode).nextBranch := by
    rw [(@State.Under.add _ _ _ items.reverse hs _ hmode).between.step_bar]
    exact State.Branching.bar hbranching
  have hnext : (s.add items.reverse mode).nextBranch.Under verbose rule :=
    ⟨.inl rfl, hs.verbose, hs.rule⟩
  obtain ⟨level, mode', hmode', hread', hbody⟩ := hv _ hnext hbranching rfl
  refine ⟨level, mode', hmode', ?_, ?_⟩
  · rw [State.readAll_of_append hread, State.readAll_cons hbar, hread']
    rfl
  · -- the finished alternative is now the latest of those before the others
    have hbranch : (s.add items.reverse mode).level.branch = Item.sequence items := by
      rw [Level.branch_eq]
      simp [State.add, hempty]
    have hchoice : Item.choice (items :: alternatives) =
        .alt (Item.sequence items) (Item.choice alternatives) := by
      cases alternatives with
      | nil => exact absurd rfl hne
      | cons => rfl
    rw [hbody, hchoice, ← hbranch]
    rfl

/-- Alternatives in parentheses are one item. -/
theorem ReadsBranches.parenthesise (h : ReadsBranches verbose rule cs alternatives) :
    PushesNode verbose rule ('(' :: '?' :: ':' :: (cs ++ [')'])) (Item.choice alternatives) := by
  intro s hs
  have hopened : (s.openGroup .plain s.level.flags).Under verbose rule :=
    ⟨.inl rfl, hs.verbose, hs.rule⟩
  obtain ⟨level, mode, hmode, hread, hbody⟩ := h _ hopened (.openGroup nofun) rfl
  have hopen : s.readAll ('(' :: '?' :: ':' :: (cs ++ [')'])) =
      (s.openGroup .plain s.level.flags).readAll (cs ++ [')']) := by
    rw [State.readAll_cons hs.between.step_parenthesis, State.readAll_cons (c := '?') rfl,
      State.readAll_cons (c := ':') rfl]
    rfl
  rw [hopen, State.readAll_of_append hread, ← show level.body = Item.choice alternatives from hbody]
  exact State.readAll_cons (Mode.Between.step_close hmode)

/-- A text after an item that repeats it. -/
theorem PushesNode.quantified {quantifier : List Char} {least : Nat} {most : Option Nat}
    (h : PushesNode verbose rule cs node)
    (hquantifier : ∀ s : State, s.mode = .plain →
      s.readAll quantifier = s.quantify least most) :
    ReadsItems verbose rule (cs ++ quantifier) [.repeated .greedy least most node] := by
  intro s hs
  refine ⟨.quantified, .inr rfl, ?_⟩
  rw [State.readAll_of_append (h s hs), hquantifier _ rfl, State.quantify_push]
  rfl

/-! ## Patterns -/

/-- A text that reads as alternatives is a pattern of them, under any flags that go together. -/
theorem ReadsBranches.compile {flags : Flags}
    (h : ReadsBranches flags.verbose flags.caseRule cs alternatives)
    (hlocale : flags.locale = false) (halphabet : (flags.ascii && flags.unicode) = false) :
    Pattern.compile cs flags =
      .ok ⟨cs, flags.settled, [], Item.choice alternatives⟩ := by
  have hstart : (State.start flags).Under flags.verbose flags.caseRule := ⟨.inl rfl, rfl, rfl⟩
  obtain ⟨level, mode, hmode, hread, hbody⟩ := h _ hstart (.start flags) rfl
  refine Pattern.compile_eq_ok.mpr
    ⟨_, _, hread, Mode.Between.finish hmode rfl hlocale halphabet nofun, ?_⟩
  rw [hbody]
  rfl

/-- What alternatives denote is what their text denotes, for a text is read in one way only. -/
theorem ReadsBranches.denotes (h : ReadsBranches false .exact cs alternatives)
    (hbody : ReadsBody cs L) :
    Denotes (Item.choice alternatives) L := by
  obtain ⟨level, mode, -, hread, hlevel⟩ :=
    h (State.start {}) ⟨.inl rfl, rfl, rfl⟩ (.start {}) rfl
  obtain ⟨level', mode', -, hread', hdenotes⟩ := hbody _ State.ready_start (.start {}) rfl
  have hsame : level = level' := congrArg (·.level) (Except.ok.inj (hread.symm.trans hread'))
  have hnode := hdenotes 0 .nil
  rw [zero_add, ← hsame, hlevel] at hnode
  exact hnode

end Abnf.Regex
