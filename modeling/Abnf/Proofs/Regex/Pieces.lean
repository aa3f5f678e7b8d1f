import Abnf.Proofs.Regex.Denotes
import Abnf.Proofs.Regex.Reading
import Abnf.Proofs.Text.Numeral

/-!
# Expressions put together from texts

A text that reads as an expression of its own is more than one that can be read: put behind another
text it has to add its items to those before it and touch nothing else. `Reads`, `Pushes` and
`ReadsBody` say this of texts that stand for a sequence of items, for one item that a quantifier may
follow, and for alternatives, each with the language that is denoted. The theorems put such texts
beside each other, behind bars, into parentheses and before quantifiers, and in the end make
patterns of them (`Reads.compile`).

Only the reading without the verbose flag and with letters told apart by case is looked at.
-/

namespace Abnf.Regex

variable {s : State} {L M K : Language Char} {cs u v : List Char} {items : List Item} {node : Node}
  {branches : List Node} {c : Char}

/-! ## Items and alternatives -/

/-- Items, the latest first, denote a language in front of whatever follows. -/
def ItemsDenote (items : List Item) (L : Language Char) : Prop :=
  ∀ rest M, Denotes rest M →
    Denotes (items.foldl (fun rest item => .seq item.node rest) rest) (L * M)

/-- No items take nothing. -/
theorem ItemsDenote.nil : ItemsDenote [] 1 := by
  intro rest M h
  rwa [one_mul]

theorem ItemsDenote.single {item : Item} (h : Denotes item.node L) : ItemsDenote [item] L :=
  fun _ _ hrest => h.seq hrest

/-- Later items come first in the list and last in the text. -/
theorem ItemsDenote.append {later : List Item} (h : ItemsDenote items L)
    (hlater : ItemsDenote later M) : ItemsDenote (later ++ items) (L * M) := by
  intro rest K hrest
  rw [List.foldl_append, mul_assoc]
  exact h _ _ (hlater _ _ hrest)

/-- Finished alternatives, the latest first, denote a language beside whatever follows. -/
def BranchesDenote (branches : List Node) (L : Language Char) : Prop :=
  ∀ rest M, Denotes rest M →
    Denotes (branches.foldl (fun rest branch => .alt branch rest) rest) (L + M)

theorem BranchesDenote.nil : BranchesDenote [] 0 := by
  intro rest M h
  rwa [zero_add]

/-- One more alternative, behind those before it. -/
theorem BranchesDenote.cons (h : BranchesDenote branches L) (hnode : Denotes node M) :
    BranchesDenote (node :: branches) (L + M) := by
  intro rest K hrest
  rw [List.foldl_cons, add_assoc]
  exact h _ _ (hnode.alt hrest)

/-- An alternative denotes what its items do, one behind the other. -/
theorem Level.denotes_branch {level : Level} (h : ItemsDenote level.items L) :
    Denotes level.branch L := by
  have := h .empty 1 .empty
  rwa [mul_one] at this

/-! ## What characters denote -/

/-- A character told apart by case is the only one that it takes. -/
theorem Denotes.char (code : Nat) :
    Denotes (.char .exact code) (oneOf fun c => c.toNat = code) := by
  intro p q
  simpa [Node.ways, CaseRule.alike, CaseRule.variants] using Leads.take (fun c => c.toNat = code) p
    q

theorem Denotes.set (chars : CharSet) :
    Denotes (.set .exact chars) (oneOf fun c => chars.holds .exact c) :=
  Leads.take _

/-- A pattern matches exactly the words of the language that it denotes. -/
theorem Denotes.fullMatch?_isSome_iff {pattern : Pattern} (h : Denotes pattern.node L)
    (text : List Char) : (pattern.fullMatch? text).isSome ↔ text ∈ L := by
  rw [pattern.fullMatch?_isSome_iff]
  constructor
  · rintro ⟨q, hq, hend⟩
    obtain ⟨⟨u, hu, hmoves⟩, -⟩ := (h _ q).mp hq
    have hafter : text = u ++ q.after := hmoves.after
    rwa [hafter, hend, List.append_nil]
  · -- the end of the text is the one place that the whole of it leads to
    intro htext
    refine ⟨⟨text.reverse, [], []⟩, (h _ _).mpr ⟨⟨text, htext, ?_, ?_⟩, rfl⟩, rfl⟩
    · exact (List.append_nil text).symm
    · exact (List.append_nil _).symm

/-- At the start of a text, a pattern matches if the text starts with a word. -/
theorem Denotes.matchAt?_isSome_iff {pattern : Pattern} (h : Denotes pattern.node L)
    (text : List Char) :
    (pattern.matchAt? (.start text)).isSome ↔ ∃ u v, text = u ++ v ∧ u ∈ L := by
  rw [Pattern.matchAt?, Option.isSome_map, Pattern.end?, Node.attempt_eq, List.findSome?_isSome_iff]
  constructor
  · rintro ⟨q, hq, -⟩
    obtain ⟨⟨u, hu, hmoves⟩, -⟩ := (h _ q).mp hq
    exact ⟨u, q.after, hmoves.after, hu⟩
  · rintro ⟨u, v, rfl, hu⟩
    have hmoves : (Place.start (u ++ v)).Moves u ⟨u.reverse, v, []⟩ :=
      ⟨rfl, (List.append_nil _).symm⟩
    exact ⟨_, (h _ _).mpr ⟨⟨u, hu, hmoves⟩, rfl⟩, rfl⟩

/-! ## States between items -/

/-- The next character starts an item, or says how the repeat before it goes on. -/
def Mode.Between (mode : Mode) : Prop := mode = .plain ∨ mode = .quantified

/-- A state between two items, where characters stand for themselves. -/
structure State.Ready (s : State) : Prop where
  between : s.mode.Between
  verbose : s.level.flags.verbose = false
  exact : s.level.flags.caseRule = .exact

/-- The state with more items, the latest first. -/
def State.add (s : State) (items : List Item) (mode : Mode) : State :=
  { s with level := { s.level with items := items ++ s.level.items }, mode := mode }

/-- Behind more items a state is between items still. -/
theorem State.Ready.add (h : s.Ready) {mode : Mode} (hmode : mode.Between) :
    (s.add items mode).Ready :=
  ⟨hmode, h.verbose, h.exact⟩

theorem State.add_add (s : State) (items later : List Item) (mode mode' : Mode) :
    (s.add items mode).add later mode' = s.add (later ++ items) mode' := by
  simp [State.add]

theorem State.ready_start : (State.start {}).Ready := ⟨.inl rfl, rfl, rfl⟩

/--
Between items an expression may end, if no group is open or still to come and its flags go together.
-/
theorem Mode.Between.finish (h : s.mode.Between) (houter : s.outer = [])
    (hlocale : s.flags.locale = false) (halphabet : (s.flags.ascii && s.flags.unicode) = false)
    (hasked : s.Answered) : s.finish = .ok s := by
  -- no construct is open, so there is nothing to settle first
  have hsettle : s.settle = .ok s := by
    rw [State.settle]
    rcases h with hmode | hmode <;> rw [hmode]
  have hanswered : s.checkAsked = .ok s := State.checkAsked_eq_ok.mpr ⟨hasked, rfl⟩
  rw [State.finish, hsettle]
  simp [bind, Except.bind, houter, State.checkFlags, hlocale, halphabet, hanswered]

/-- A quantifier takes the item before it. -/
theorem State.quantify_push (s : State) (node : Node) (least : Nat) (most : Option Nat) :
    (s.push (.single node)).quantify least most =
      .ok (s.add [.repeated .greedy least most node] .quantified) := rfl

theorem State.quantify_enter (s : State) (mode : Mode) (low : Nat) (high : Option Nat) :
    (s.enter mode).quantify low high = s.quantify low high := rfl

/-- A bound that can be carried out is read as the number that was written. -/
theorem State.bound_decimal {n : Nat} (h : n < repeatLimit) : bound (Text.decimal n) = .ok n := by
  -- a count below the limit has ten digits at most, and is no numeral that is too long
  have hlength : (Text.decimal n).length ≤ 10 :=
    (Nat.length_toDigits_le_iff (by decide) (by decide)).mpr (Nat.lt_trans h (by decide))
  rw [bound, Text.decimalValue, if_pos (Nat.le_trans hlength (by decide)),
    Text.numeralValue_decimal]
  exact if_neg (Nat.not_le.mpr h)

theorem State.deliver_enter (s : State) (mode : Mode) (slot : Slot) (m : Member) :
    (s.enter mode).deliver slot m = s.deliver slot m := by
  cases slot <;> cases m <;> rfl

/-- Only letters mean something else behind a backslash. -/
theorem escapes_eq_none (h : c.isAlphanum = false) :
    controlEscape? c = none ∧ kindEscape? c = none ∧ hexWidth? c = none := by
  refine ⟨?_, ?_, ?_⟩
  · unfold controlEscape?
    split <;> first | rfl | exact absurd h (by decide)
  · unfold kindEscape?
    split <;> first | rfl | exact absurd h (by decide)
  · unfold hexWidth?
    split <;> first | rfl | exact absurd h (by decide)

/-! ## Texts as items -/

variable [Interpreter]

/-- A text reads as a sequence of items that denotes a language. -/
def Reads (cs : List Char) (L : Language Char) : Prop :=
  ∀ s : State, s.Ready → ∃ items mode, Mode.Between mode ∧ s.readAll cs = .ok (s.add items mode) ∧
    ItemsDenote items L

/-- A text reads as one item that denotes a language and may be repeated. -/
def Pushes (cs : List Char) (L : Language Char) : Prop :=
  ∀ s : State, s.Ready → ∃ node, s.readAll cs = .ok (s.push (.single node)) ∧ Denotes node L

/-- One item is a sequence of items. -/
theorem Pushes.reads (h : Pushes cs L) : Reads cs L := by
  intro s hs
  obtain ⟨node, hread, hnode⟩ := h s hs
  exact ⟨[.single node], .plain, .inl rfl, hread, .single hnode⟩

theorem Reads.nil : Reads [] 1 := by
  intro s hs
  exact ⟨[], s.mode, hs.between, rfl, .nil⟩

/-- Texts beside each other denote the one language and then the other. -/
theorem Reads.append (hu : Reads u L) (hv : Reads v M) : Reads (u ++ v) (L * M) := by
  intro s hs
  obtain ⟨items, mode, hmode, hread, hitems⟩ := hu s hs
  -- the state behind the first text is between items too, so the second is read from there
  obtain ⟨later, mode', hmode', hread', hlater⟩ := hv _ (hs.add hmode)
  refine ⟨later ++ items, mode', hmode', ?_, hitems.append hlater⟩
  rw [State.readAll_of_append hread, hread', State.add_add]

/-! ## Characters between items -/

namespace Mode.Between

/-- Between items, a character that says nothing about the repeat before it starts an item. -/
theorem step (h : s.mode.Between) (hlazy : c ≠ '?') (hpossessive : c ≠ '+') :
    s.step c = s.readPlain c := by
  rcases h with hmode | hmode
  · simp [State.step, hmode]
  · simp [State.step, hmode, hlazy, hpossessive]

/-- A backslash begins an escape. -/
theorem step_backslash (h : s.mode.Between) : s.step '\\' = .ok (s.enter (.escape .item)) := by
  rw [h.step (by decide) (by decide)]
  simp [State.readPlain, isPatternSpace]

/-- A bracket begins a set. -/
theorem step_bracket (h : s.mode.Between) : s.step '[' = .ok (s.enter .setOpen) := by
  rw [h.step (by decide) (by decide)]
  simp [State.readPlain, isPatternSpace]

/-- A parenthesis begins a group, of which the next characters say the kind. -/
theorem step_parenthesis (h : s.mode.Between) : s.step '(' = .ok (s.enter .groupOpen) := by
  rw [h.step (by decide) (by decide)]
  simp [State.readPlain, isPatternSpace]

theorem step_bar (h : s.mode.Between) : s.step '|' = s.bar := by
  rw [h.step (by decide) (by decide)]
  simp [State.readPlain, isPatternSpace]

theorem step_close (h : s.mode.Between) : s.step ')' = s.close := by
  rw [h.step (by decide) (by decide)]
  simp [State.readPlain, isPatternSpace]

end Mode.Between

/-! ## Alternatives and groups -/

/-- A text reads as alternatives that together denote a language, beside those before it. -/
def ReadsBody (cs : List Char) (L : Language Char) : Prop :=
  ∀ s : State, s.Ready → s.Branching → s.level.items = [] → ∃ level mode, Mode.Between mode ∧
    s.readAll cs = .ok { s with level := level, mode := mode } ∧
      ∀ K, BranchesDenote s.level.branches K → Denotes level.body (K + L)

/-- Items without a bar are the last of the alternatives. -/
theorem Reads.body (h : Reads cs L) : ReadsBody cs L := by
  intro s hs _ hempty
  obtain ⟨items, mode, hmode, hread, hitems⟩ := h s hs
  refine ⟨_, mode, hmode, hread, fun K hK => hK _ _ (Level.denotes_branch ?_)⟩
  rwa [hempty, List.append_nil]

/-- Behind a bar come the other alternatives. -/
theorem Reads.bar (hu : Reads u L) (hv : ReadsBody v M) : ReadsBody (u ++ '|' :: v) (L + M) := by
  intro s hs hbranching hempty
  obtain ⟨items, mode, hmode, hread, hitems⟩ := hu s hs
  have hbar : (s.add items mode).step '|' = .ok (s.add items mode).nextBranch := by
    rw [(@State.Ready.add _ items hs _ hmode).between.step_bar]
    exact State.Branching.bar hbranching
  have hnext : (s.add items mode).nextBranch.Ready := ⟨.inl rfl, hs.verbose, hs.exact⟩
  -- the first alternative is closed, and the others are read beside it
  obtain ⟨level, mode', hmode', hread', hlevel⟩ := hv _ hnext hbranching rfl
  refine ⟨level, mode', hmode', ?_, fun K hK => ?_⟩
  · rw [State.readAll_of_append hread, State.readAll_cons hbar, hread']
    rfl
  · rw [← add_assoc]
    refine hlevel _ (hK.cons (Level.denotes_branch ?_))
    simpa [State.add, hempty] using hitems

/-- Alternatives in parentheses are one item. -/
theorem ReadsBody.parenthesise (h : ReadsBody cs L) :
    Pushes ('(' :: '?' :: ':' :: (cs ++ [')'])) L := by
  intro s hs
  have hopened : (s.openGroup .plain s.level.flags).Ready := ⟨.inl rfl, hs.verbose, hs.exact⟩
  obtain ⟨level, mode, hmode, hread, hlevel⟩ := h _ hopened (.openGroup nofun) rfl
  refine ⟨level.body, ?_, ?_⟩
  · -- the group that was opened is closed with all its alternatives, and is an item outside
    have hopen : s.readAll ('(' :: '?' :: ':' :: (cs ++ [')'])) =
        (s.openGroup .plain s.level.flags).readAll (cs ++ [')']) := by
      rw [State.readAll_cons hs.between.step_parenthesis, State.readAll_cons (c := '?') rfl,
        State.readAll_cons (c := ':') rfl]
      rfl
    rw [hopen, State.readAll_of_append hread]
    exact State.readAll_cons (Mode.Between.step_close hmode)
  · have := hlevel 0 .nil
    rwa [zero_add] at this

/-! ## Quantifiers -/

/-- A text after an item that repeats it. -/
theorem Pushes.quantified {quantifier : List Char} {least : Nat} {most : Option Nat}
    (h : Pushes cs L) (hmost : ∀ m ∈ most, least ≤ m)
    (hquantifier : ∀ s : State, s.mode = .plain →
      s.readAll quantifier = s.quantify least most) :
    Reads (cs ++ quantifier) (copies L least most) := by
  intro s hs
  obtain ⟨node, hread, hnode⟩ := h s hs
  refine ⟨[.repeated .greedy least most node], .quantified, .inr rfl, ?_,
    .single (hnode.iterate hmost)⟩
  rw [State.readAll_of_append hread, hquantifier _ rfl, State.quantify_push]

section

variable {least most : List Char}

namespace State

theorem readAll_singleton (s : State) (c : Char) : s.readAll [c] = s.step c := by
  rw [readAll]
  cases s.step c <;> rfl

/-- The short quantifiers. -/
theorem readAll_star (h : s.mode = .plain) : s.readAll ['*'] = s.quantify 0 none := by
  rw [readAll_singleton]
  simp [step, h, readPlain, isPatternSpace]

theorem readAll_plus (h : s.mode = .plain) : s.readAll ['+'] = s.quantify 1 none := by
  rw [readAll_singleton]
  simp [step, h, readPlain, isPatternSpace]

theorem readAll_question (h : s.mode = .plain) : s.readAll ['?'] = s.quantify 0 (some 1) := by
  rw [readAll_singleton]
  simp [step, h, readPlain, isPatternSpace]

theorem step_brace (h : s.mode = .plain) : s.step '{' = .ok (s.enter (.braces [] none)) := by
  simp [step, h, readPlain, isPatternSpace]

/-- The digits of the lower bound. -/
theorem readAll_least {digits : List Char} (h : ∀ c ∈ digits, Text.isAsciiDigit c) :
    (s.enter (.braces least none)).readAll (digits ++ v) =
      (s.enter (.braces (least ++ digits) none)).readAll v := by
  induction digits generalizing least with
  | nil => rw [List.append_nil, List.nil_append]
  | cons c digits ih =>
    rw [List.forall_mem_cons] at h
    have hstep : (s.enter (.braces least none)).step c =
        .ok (s.enter (.braces (least ++ [c]) none)) := by
      simp [step, enter, readBraces, h.1]
    rw [List.cons_append, readAll_cons hstep, ih h.2, List.append_assoc, List.singleton_append]

/-- The digits of the upper bound. -/
theorem readAll_most {digits : List Char} (h : ∀ c ∈ digits, Text.isAsciiDigit c) :
    (s.enter (.braces least (some most))).readAll (digits ++ v) =
      (s.enter (.braces least (some (most ++ digits)))).readAll v := by
  induction digits generalizing most with
  | nil => rw [List.append_nil, List.nil_append]
  | cons c digits ih =>
    rw [List.forall_mem_cons] at h
    have hstep : (s.enter (.braces least (some most))).step c =
        .ok (s.enter (.braces least (some (most ++ [c])))) := by
      simp [step, enter, readBraces, h.1]
    rw [List.cons_append, readAll_cons hstep, ih h.2, List.append_assoc, List.singleton_append]

/-- Braces that hold a count are closed as a quantifier. -/
theorem step_endBraces {most : Option (List Char)} (h : least ≠ [] ∨ most ≠ none) :
    (s.enter (.braces least most)).step '}' =
      (s.enter (.braces least most)).quantifyBraces least most := by
  have hends : (!(least.isEmpty && most.isNone)) = true := by
    cases least <;> cases most <;> simp_all
  have hdigit : Text.isAsciiDigit '}' = false := by decide
  simp [step, enter, readBraces, hends, hdigit]

/-- An exact count in braces. -/
theorem readAll_exactly {n : Nat} (h : s.mode = .plain) (hne : least ≠ [])
    (hleast : ∀ c ∈ least, Text.isAsciiDigit c) (hbound : bound least = .ok n) :
    s.readAll ('{' :: (least ++ ['}'])) = s.quantify n (some n) := by
  rw [readAll_cons (step_brace h), readAll_least hleast, readAll_singleton, List.nil_append,
    step_endBraces (.inl hne), quantifyBraces, Option.getD_none, hbound]
  cases least with
  | nil => exact absurd rfl hne
  | cons c least => simp [bind, Except.bind, hbound, quantify_enter]

/-- Bounds in braces, of which the upper one may be left out. -/
theorem readAll_between {low high : Nat} (h : s.mode = .plain)
    (hleast : ∀ c ∈ least, Text.isAsciiDigit c) (hmost : ∀ c ∈ most, Text.isAsciiDigit c)
    (hlow : bound least = .ok low) (hhigh : most ≠ [] → bound most = .ok high ∧ low ≤ high) :
    s.readAll ('{' :: (least ++ ',' :: (most ++ ['}']))) =
      s.quantify low (if most = [] then none else some high) := by
  have hcomma : (s.enter (.braces least none)).step ',' =
      .ok (s.enter (.braces least (some []))) := by
    simp [step, enter, readBraces]
    decide
  rw [readAll_cons (step_brace h), readAll_least hleast, List.nil_append, readAll_cons hcomma,
    readAll_most hmost, List.nil_append, readAll_singleton,
    step_endBraces (.inr (by simp)), quantifyBraces, Option.getD_some, hlow]
  cases most with
  | nil => simp [bind, Except.bind, quantify_enter]
  | cons c most =>
    obtain ⟨hhigh, hle⟩ := hhigh (List.cons_ne_nil c most)
    simp [bind, Except.bind, hhigh, Nat.not_lt.mpr hle, quantify_enter]

end State

end

/-! ## Characters -/

/-- A character that means nothing else and is not skipped stands for itself. -/
theorem State.readAll_literal
    (h : c ∉ ['\\', '[', '(', ')', '|', '.', '^', '$', '*', '+', '?', '{'])
    (hskip : s.level.flags.verbose → isPatternSpace c = false ∧ c ≠ '#') (hs : s.mode.Between) :
    s.readAll [c] = .ok (s.pushCode c.toNat) := by
  simp only [List.mem_cons, List.not_mem_nil, or_false, not_or] at h
  have hspace : (s.level.flags.verbose && isPatternSpace c) = false := by
    cases hverbose : s.level.flags.verbose with
    | false => rfl
    | true => exact (hskip hverbose).1
  -- in verbose mode white space is skipped, and what follows a `#`
  have hcomment : ¬ (s.level.flags.verbose && decide (c = '#')) := by
    rw [Bool.and_eq_true, decide_eq_true_eq]
    exact fun hc => (hskip hc.1).2 hc.2
  rw [readAll_singleton, hs.step h.2.2.2.2.2.2.2.2.2.2.1 h.2.2.2.2.2.2.2.2.2.1]
  simp only [readPlain, hspace, hcomment, if_false, Bool.false_eq_true]
  split <;> simp_all

/-- A character that stands for itself takes itself. -/
theorem Pushes.literal (h : c ∉ ['\\', '[', '(', ')', '|', '.', '^', '$', '*', '+', '?', '{']) :
    Pushes [c] (oneOf fun d => d = c) := by
  intro s hs
  refine ⟨.char .exact c.toNat, ?_, ?_⟩
  · rw [State.readAll_literal h (by simp [hs.verbose]) hs.between, State.pushCode, hs.exact]
  · simpa [Char.toNat_inj] using Denotes.char c.toNat

/-- Behind a backslash, a character that is neither a letter nor a digit stands for itself. -/
theorem State.readAll_escaped (h : c.isAlphanum = false) (hs : s.mode.Between) :
    s.readAll ['\\', c] = .ok (s.pushCode c.toNat) := by
  obtain ⟨hcontrol, hkind, hhex⟩ := escapes_eq_none h
  rw [readAll_cons hs.step_backslash, readAll_singleton]
  simp [step, enter, readEscape, hcontrol, hkind, hhex, h, deliver, pushCode, push]

/-- So does one behind a backslash. -/
theorem Pushes.escaped (h : c.isAlphanum = false) : Pushes ['\\', c] (oneOf fun d => d = c) := by
  intro s hs
  refine ⟨.char .exact c.toNat, ?_, by simpa [Char.toNat_inj] using Denotes.char c.toNat⟩
  rw [State.readAll_escaped h hs.between, State.pushCode, hs.exact]

/-- Behind a backslash, some letters stand for a control character. -/
theorem State.readAll_control {code : Nat} (h : controlEscape? c = some code)
    (hs : s.mode.Between) : s.readAll ['\\', c] = .ok (s.pushCode code) := by
  rw [readAll_cons hs.step_backslash, readAll_singleton]
  simp [step, enter, readEscape, h, deliver, pushCode, push]

theorem Pushes.control {code : Nat} (h : controlEscape? c = some code) :
    Pushes ['\\', c] (oneOf fun d => d.toNat = code) := by
  intro s hs
  refine ⟨.char .exact code, ?_, Denotes.char code⟩
  rw [State.readAll_control h hs.between, State.pushCode, hs.exact]

/-- A text behind an opening bracket reads as members of a set, whatever flags are in force. -/
def Brackets (cs : List Char) (members : List Member) : Prop :=
  ∀ s : State, (s.enter .setOpen).readAll cs =
    .ok (s.push (.single (.set s.level.flags.caseRule { members := members })))

/-- Members in brackets are one item that takes any of them. -/
theorem Pushes.set (members : List Member) (h : Brackets cs members) :
    Pushes ('[' :: cs) (oneOf fun c => ∃ m ∈ members, m.holds .exact c) := by
  intro s hs
  refine ⟨.set .exact { members := members }, ?_, ?_⟩
  · rw [State.readAll_cons hs.between.step_bracket, h, hs.exact]
  · simpa [CharSet.holds] using Denotes.set { members := members }

/-- What a class of characters is called does not matter. -/
theorem Pushes.congr {wanted other : Char → Prop} (h : Pushes cs (oneOf wanted))
    (heq : ∀ c, wanted c ↔ other c) : Pushes cs (oneOf other) := by
  rwa [← funext fun c => propext (heq c)]

/-- Characters behind a member of a set that mean nothing there are more members. -/
theorem State.readAll_characters (h : ∀ d ∈ cs, d ∉ ['-', ']', '\\']) (s : State) (set : CharSet)
    (first : Member) : (s.enter (.setAfter set first)).readAll (cs ++ [']']) =
      .ok (s.pushSet { set with members :=
        (cs.map fun d => Member.one d.toNat).reverse ++ first :: set.members }) := by
  induction cs generalizing set first with
  | nil =>
    rw [List.nil_append, readAll_singleton]
    rfl
  | cons d cs ih =>
    rw [List.forall_mem_cons] at h
    obtain ⟨hd, hcs⟩ := h
    simp only [List.mem_cons, List.not_mem_nil, or_false, not_or] at hd
    have hstep : (s.enter (.setAfter set first)).step d =
        .ok (s.enter (.setAfter (addMember set first) (.one d.toNat))) := by
      simp [step, enter, readSet, readMember, addMember, hd]
    rw [List.cons_append, readAll_cons hstep, ih hcs]
    simp [addMember]

/-- Characters in brackets that mean nothing there are the members of the set. -/
theorem Brackets.characters (hc : c ∉ ['^', ']', '\\']) (hcs : ∀ d ∈ cs, d ∉ ['-', ']', '\\']) :
    Brackets (c :: (cs ++ [']'])) ((c :: cs).map fun d => .one d.toNat) := by
  simp only [List.mem_cons, List.not_mem_nil, or_false, not_or] at hc
  intro s
  have hfirst : (s.enter .setOpen).step c = .ok (s.enter (.setAfter {} (.one c.toNat))) := by
    simp [State.step, State.enter, State.readSet, State.readMember, hc]
  rw [State.readAll_cons hfirst, State.readAll_characters hcs, State.pushSet]
  simp

/-- Characters in brackets take one of them. -/
theorem Pushes.characters (hc : c ∉ ['^', ']', '\\']) (hcs : ∀ d ∈ cs, d ∉ ['-', ']', '\\']) :
    Pushes ('[' :: c :: (cs ++ [']'])) (oneOf fun e => e ∈ c :: cs) := by
  refine (Pushes.set _ (.characters hc hcs)).congr fun e => ?_
  simp only [List.mem_map, Member.holds, CaseRule.alike, CaseRule.variants, List.contains_nil,
    Bool.or_false, decide_eq_true_eq, Char.toNat_inj, exists_exists_and_eq_and, exists_eq_right']

theorem Brackets.pair {d : Char} (hc : c ∉ ['^', ']', '\\']) (hd : d ∉ ['-', ']', '\\']) :
    Brackets [c, d, ']'] [.one c.toNat, .one d.toNat] :=
  .characters hc (List.forall_mem_singleton.mpr hd)

/-- Two characters in brackets, as a letter in both its cases. -/
theorem Pushes.pair {d : Char} (hc : c ∉ ['^', ']', '\\']) (hd : d ∉ ['-', ']', '\\']) :
    Pushes ['[', c, d, ']'] (oneOf fun e => e = c ∨ e = d) :=
  (Pushes.characters hc (List.forall_mem_singleton.mpr hd)).congr fun e => by simp

/-! ## Characters by number -/

section

variable {slot : Slot} {digits : List Char} {letter : Char}

/-- The digits of an escape by number, of which some have been read. -/
theorem State.readAll_hex {escape : List Char} (hdigits : ∀ c ∈ digits, Text.isHexDigit c)
    (hne : digits ≠ []) (hcode : Text.numeralValue 16 ((escape ++ digits).drop 2) ≤ 0x10FFFF) :
    (s.enter (.hex slot escape digits.length)).readAll digits =
      s.deliver slot (.one (Text.numeralValue 16 ((escape ++ digits).drop 2))) := by
  induction digits generalizing escape with
  | nil => exact absurd rfl hne
  | cons c digits ih =>
    rw [List.forall_mem_cons] at hdigits
    cases digits with
    | nil =>
      rw [readAll_singleton, ← deliver_enter s (.hex slot escape [c].length)]
      simp [step, enter, readHex, hdigits.1, Nat.not_lt.mpr hcode]
    -- one digit is read and kept, and so many fewer are still to come
    | cons d digits =>
      have hstep : (s.enter (.hex slot escape (c :: d :: digits).length)).step c =
          .ok (s.enter (.hex slot (escape ++ [c]) (d :: digits).length)) := by
        simp [step, enter, readHex, hdigits.1]
      have hescape : escape ++ c :: d :: digits = (escape ++ [c]) ++ d :: digits := by simp
      rw [readAll_cons hstep, hescape]
      exact ih hdigits.2 nofun (hescape ▸ hcode)

/-- A letter and digits that name a code point behind a backslash. -/
structure NamesCode (text : List Char) (code : Nat) : Prop where
  names : ∃ letter digits, text = letter :: digits ∧ hexWidth? letter = some digits.length ∧
    digits ≠ [] ∧ (∀ c ∈ digits, Text.isHexDigit c) ∧ Text.numeralValue 16 digits = code
  le : code ≤ 0x10FFFF

/-- An escape by number is delivered where it is meant to be. -/
theorem NamesCode.readAll {text : List Char} {code : Nat} (h : NamesCode text code) (s : State)
    (slot : Slot) : (s.enter (.escape slot)).readAll text = s.deliver slot (.one code) := by
  obtain ⟨⟨letter, digits, rfl, hletter, hne, hdigits, rfl⟩, hle⟩ := h
  -- the letters of numbered escapes mean nothing else
  have hothers : controlEscape? letter = none ∧ kindEscape? letter = none := by
    unfold hexWidth? at hletter
    split at hletter <;> first | exact ⟨rfl, rfl⟩ | cases hletter
  have hstep : (s.enter (.escape slot)).step letter =
      .ok (s.enter (.hex slot ['\\', letter] digits.length)) := by
    simp [State.step, State.enter, State.readEscape, hothers, hletter]
  rw [State.readAll_cons hstep, State.readAll_hex hdigits hne (by simpa using hle)]
  rfl

/-- Between items an escape by number is that character. -/
theorem State.readAll_numbered {text : List Char} {code : Nat} (h : NamesCode text code)
    (hs : s.mode.Between) : s.readAll ('\\' :: text) = .ok (s.pushCode code) := by
  rw [readAll_cons hs.step_backslash, h.readAll, deliver]

theorem Pushes.numbered {text : List Char} {code : Nat} (h : NamesCode text code) :
    Pushes ('\\' :: text) (oneOf fun c => c.toNat = code) := by
  intro s hs
  refine ⟨.char .exact _, ?_, Denotes.char _⟩
  rw [State.readAll_numbered h hs.between, State.pushCode, hs.exact]

/-- The first range of a set, given by two escapes. -/
theorem State.readAll_range {u v rest : List Char} {first last : Nat} (hu : NamesCode u first)
    (hv : NamesCode v last) (hle : first ≤ last) (s : State) :
    (s.enter .setOpen).readAll ('\\' :: (u ++ '-' :: '\\' :: (v ++ rest))) =
      (s.enter (.setMember { members := [.range first last] })).readAll rest := by
  have hfirst : (s.enter (.escape (.member {}))).readAll u =
      .ok (s.enter (.setAfter {} (.one first))) := hu.readAll s _
  have hlast : (s.enter (.escape (.last {} (.one first)))).readAll v =
      .ok (s.enter (.setMember { members := [.range first last] })) := by
    rw [hv.readAll, State.deliver, if_neg (Nat.not_lt.mpr hle)]
  rw [State.readAll_cons (t := s.enter (.escape (.member {}))) rfl, State.readAll_of_append hfirst,
    State.readAll_cons (t := s.enter (.setRange {} (.one first))) rfl,
    State.readAll_cons (t := s.enter (.escape (.last {} (.one first)))) rfl,
    State.readAll_of_append hlast]

/-- A range of two escapes by number. -/
theorem Brackets.range {u v : List Char} {first last : Nat} (hu : NamesCode u first)
    (hv : NamesCode v last) (hle : first ≤ last) :
    Brackets ('\\' :: (u ++ '-' :: '\\' :: (v ++ [']']))) [.range first last] := by
  intro s
  rw [State.readAll_range hu hv hle]
  rfl

end

/-! ## Patterns -/

/-- A text that reads as items is a pattern that matches exactly the words they denote. -/
theorem Reads.compile (h : Reads cs L) : ∃ pattern, Pattern.compile cs = .ok pattern ∧
    ∀ text, (pattern.fullMatch? text).isSome ↔ text ∈ L := by
  obtain ⟨items, mode, hmode, hread, hitems⟩ := h _ State.ready_start
  refine ⟨_, Pattern.compile_eq_ok.mpr ⟨_, _, hread, Mode.Between.finish hmode rfl rfl rfl nofun,
    rfl⟩,
    Denotes.fullMatch?_isSome_iff (zero_add L ▸ ?_)⟩
  -- there are no alternatives beside the one that was read
  refine BranchesDenote.nil _ _ (Level.denotes_branch ?_)
  simpa [State.add, State.start] using hitems

end Abnf.Regex
