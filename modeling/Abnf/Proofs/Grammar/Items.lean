import Abnf.Proofs.Grammar.Source
import Abnf.Proofs.Regex.Items

/-!
# The items of an expression

What the source of an expression is read as, item by item and for any flags. Two things about the
flags play a part. Characters are compared as the flags ask. And where blanks are skipped, a source
reads as that of another expression (`Expr.seen`): of all that an expression is written with, only
the core rule for a space is a blank that stands bare, and it is gone then.

`Expr.Proper.readsBranches` follows the source through its construction, as
`Expr.Proper.reads_source` does for languages; `Expr.Proper.compile_source` makes the pattern.
-/

namespace Abnf.Grammar

open Regex Token

variable {rule : CaseRule} {verbose bare : Bool} {expr : Expr} {c : Char}

/-! ## Characters -/

/-- The case forms of a letter as it is written in a set, the letter itself included. -/
def writtenForms (c : Char) : List Char :=
  match Text.caseForms? c.toNat with
  | none => []
  | some (upper, lower) =>
    let forms := [Char.ofNat upper, Char.ofNat lower]
    if forms.contains c then forms else forms ++ [c]

/-- What a character of a string is read as: a set if it is a letter. -/
def charNode (rule : CaseRule) (c : Char) : Node :=
  if writtenForms c = [] then .char rule c.toNat
  else .set rule { members := (writtenForms c).map fun d => .one d.toNat }

/-- Of the printable characters, the letters have two forms, and no other has any. -/
theorem writtenForms_eq (h : IsPrintable c) : writtenForms c =
    if isLetter c then [Char.ofNat ((Text.asciiLower c).toNat - 32), Text.asciiLower c]
    else [] := by
  have hall : ∀ code < 127, 32 ≤ code → ∀ c, c = Char.ofNat code → writtenForms c =
      if isLetter c then [Char.ofNat ((Text.asciiLower c).toNat - 32), Text.asciiLower c]
      else [] := by
    simp only [forall_eq]
    decide
  have hbounds : 32 ≤ c.toNat ∧ c.toNat ≤ 126 := h
  exact hall c.toNat (by omega) hbounds.1 c (Char.ofNat_toNat c).symm

/-- No character of a string is written so that it could be skipped. -/
theorem not_skipped_of_charSource (h : IsPrintable c) (hsource : charSource c = [c]) :
    isPatternSpace c = false ∧ c ≠ '#' := by
  have hspace : c ≠ ' ' := by
    rintro rfl
    exact absurd hsource (by decide)
  have hbounds : 32 ≤ c.toNat ∧ c.toNat ≤ 126 := h
  refine ⟨?_, ?_⟩
  · simp only [isPatternSpace, hspace, decide_false, Bool.false_or, Bool.and_eq_false_iff,
      decide_eq_false_iff_not]
    omega
  · rintro rfl
    exact absurd hsource (by decide)

theorem pushesNode_charSource [Interpreter] (h : IsPrintable c) :
    PushesNode verbose rule (charSource c) (charNode rule c) := by
  rw [charNode, writtenForms_eq h]
  rcases charSource_cases h with ⟨hletter, hsource⟩ | ⟨hletter, hsource, hplain⟩ |
    ⟨hletter, hsource, hplain⟩
  · obtain ⟨-, hupper, hlower⟩ := letter_forms hletter
    rw [hsource, if_pos hletter, if_neg (List.cons_ne_nil _ _)]
    exact .set (.pair hupper hlower)
  · rw [hsource, if_neg hletter, if_pos rfl]
    exact .escaped hplain
  · have hskip := not_skipped_of_charSource h hsource
    rw [hsource, if_neg hletter, if_pos rfl]
    exact .literal hplain fun _ => hskip

theorem readsItems_literalSource [Interpreter] {text : List Char} (h : ∀ c ∈ text, IsPrintable c) :
    ReadsItems verbose rule (literalSource text) (text.map fun c => .single (charNode rule c)) := by
  induction text with
  | nil => exact .nil
  | cons c text ih =>
    rw [List.forall_mem_cons] at h
    exact (pushesNode_charSource h.1).reads.append (ih h.2)

theorem readsItems_codes [Interpreter] {codes : List Nat} (h : ∀ code ∈ codes, code ≤ highestCode) :
    ReadsItems verbose rule (codes.flatMap codeSource)
      (codes.map fun code => .single (.char rule code)) := by
  induction codes with
  | nil => exact .nil
  | cons code codes ih =>
    rw [List.forall_mem_cons] at h
    obtain ⟨text, htext, hnames⟩ := exists_codeSource h.1
    rw [List.flatMap_cons, htext]
    exact (PushesNode.numbered hnames).reads.append (ih h.2)

/-! ## Core rules -/

/-- A space or tab. -/
def blankNode (rule : CaseRule) : Node := .set rule { members := [.one 0x20, .one 0x09] }

/-- What a core rule is read as, if no blanks are skipped. -/
def CoreRule.items (rule : CaseRule) (core : CoreRule) : List Item :=
  match core.members? with
  | some members => [.single (.set rule { members := members })]
  | none =>
    match core with
    | cr => [.single (.char rule 0x0D)]
    | crlf => [.single (.char rule 0x0D), .single (.char rule 0x0A)]
    | dquote => [.single (.char rule 0x22)]
    | htab => [.single (.char rule 0x09)]
    | lf => [.single (.char rule 0x0A)]
    | lwsp => [.repeated .greedy 0 none (Item.choice [[.single (blankNode rule)],
        [.single (.char rule 0x0D), .single (.char rule 0x0A), .single (blankNode rule)]])]
    | _ => [.single (.char rule 0x20)]

/-- A core rule other than that for a space reads as its items under any flags. -/
theorem CoreRule.readsItems [Interpreter] {core : CoreRule} (h : verbose → core ≠ .sp) :
    ReadsItems verbose rule core.source (core.items rule) := by
  have hblank : PushesNode verbose rule ['[', ' ', '\\', 't', ']'] (blankNode rule) :=
    .set brackets_blank
  have hcr : PushesNode verbose rule ['\\', 'r'] (.char rule 0x0D) := .control rfl
  have hlf : PushesNode verbose rule ['\\', 'n'] (.char rule 0x0A) := .control rfl
  have hset {members : List Member} (hmembers : core.members? = some members) :
      ReadsItems verbose rule core.source (core.items rule) := by
    obtain ⟨cs, hcs, hbrackets⟩ := exists_brackets hmembers
    simp only [hcs, items, hmembers]
    exact (PushesNode.set hbrackets).reads
  -- most core rules are one set; the others are put together from escapes
  cases core with
  | alpha | bit | char | ctl | digit | hexdig | octet | vchar | wsp => exact hset rfl
  | cr => exact hcr.reads
  | lf => exact hlf.reads
  | crlf => exact hcr.reads.append hlf.reads
  | htab => exact (PushesNode.control rfl).reads
  | dquote => exact (PushesNode.literal (by decide) fun _ => by decide).reads
  | sp => exact (PushesNode.literal (by decide) fun hverbose => absurd rfl (h hverbose)).reads
  | lwsp =>
    have hfold := hcr.reads.append (hlf.reads.append hblank.reads)
    have hgroup := (hblank.reads.bar hfold.branches (List.cons_ne_nil _ _)).parenthesise
    exact hgroup.quantified fun s => State.readAll_star

/-! ## Expressions -/

namespace Expr

/-- What an expression is read as: for each alternative its items. -/
def alternatives (rule : CaseRule) : Expr → List (List Item)
  | literal text => [text.map fun c => .single (charNode rule c)]
  | codes cs => [cs.map fun code => .single (.char rule code)]
  | range first last => [[.single (.set rule { members := [.range first last] })]]
  | core name => [name.items rule]
  | foreign _ => [[]]
  | seq a b => [(a.alternatives rule).flatten ++ (b.alternatives rule).flatten]
  | alt a b => a.alternatives rule ++ b.alternatives rule
  | grouped body => [[.single (Item.choice (body.alternatives rule))]]
  | optional body => [[.repeated .greedy 0 (some 1) (Item.choice (body.alternatives rule))]]
  | repeated times body =>
    [[.repeated .greedy times.least times.most (Item.choice (body.alternatives rule))]]

/-- The items of an expression without alternatives of its own. -/
def items (rule : CaseRule) (expr : Expr) : List Item := (expr.alternatives rule).flatten

/-- What an expression is read as. -/
def node (rule : CaseRule) (expr : Expr) : Node := Item.choice (expr.alternatives rule)

/-- What is left of an expression where blanks are skipped: the core rule for a space is nothing. -/
def seen (verbose : Bool) : Expr → Expr
  | core .sp => if verbose then literal [] else core .sp
  | seq a b => seq (a.seen verbose) (b.seen verbose)
  | alt a b => alt (a.seen verbose) (b.seen verbose)
  | grouped body => grouped (body.seen verbose)
  | optional body => optional (body.seen verbose)
  | repeated times body => repeated times (body.seen verbose)
  | expr => expr

theorem alternatives_ne_nil (rule : CaseRule) (expr : Expr) : expr.alternatives rule ≠ [] := by
  induction expr with
  | alt a b iha ihb => exact List.append_ne_nil_of_left_ne_nil iha _
  | _ => exact List.cons_ne_nil _ _

/--
The ways of alternatives in order are those of the first, then those of the second, and so on.
-/
theorem ways_anyOf (rule : CaseRule) (first : Expr) (more : List Expr) (p : Place) :
    ((anyOf first more).node rule).ways p =
      (first :: more).flatMap fun e => (e.node rule).ways p := by
  have hways (e : Expr) : (e.node rule).ways p =
      (e.alternatives rule).flatMap fun items => (Item.sequence items).ways p :=
    Item.ways_choice (alternatives_ne_nil rule e) p
  cases more with
  | nil => exact (List.append_nil _).symm
  | cons second more =>
    -- the parentheses make one item of the alternatives
    have hgroup : ((anyOf first (second :: more)).node rule).ways p =
        ((anyOf.alternatives first second more).node rule).ways p :=
      Item.ways_choice_single (.single _) p
    rw [hgroup]
    clear hgroup
    simp only [hways]
    induction more generalizing first second with
    | nil => simp [anyOf.alternatives, alternatives]
    | cons third more ih =>
      rw [anyOf.alternatives, alternatives, List.flatMap_append, ih second third]
      rfl

theorem seen_false (expr : Expr) : expr.seen false = expr := by
  induction expr with
  | core name => cases name <;> rfl
  | seq a b iha ihb => rw [seen, iha, ihb]
  | alt a b iha ihb => rw [seen, iha, ihb]
  | grouped body ih => rw [seen, ih]
  | optional body ih => rw [seen, ih]
  | repeated times body ih => rw [seen, ih]
  | _ => rfl

/-- What is left of a proper expression is a proper expression. -/
theorem Proper.seen {known : List Char → Prop} (h : expr.Proper known bare) (verbose : Bool) :
    (expr.seen verbose).Proper known bare := by
  induction expr generalizing bare with
  | core name =>
    cases name with
    | sp =>
      cases verbose with
      | false => trivial
      | true => exact List.forall_mem_nil _
    | _ => trivial
  | seq a b iha ihb => exact ⟨iha h.1, ihb h.2⟩
  | alt a b iha ihb => exact ⟨h.1, iha h.2.1, ihb h.2.2⟩
  | grouped body ih => exact ih h
  | optional body ih => exact ih h
  | repeated times body ih => exact ⟨h.1, ih h.2⟩
  | _ => exact h

/-- A proper expression that may stand anywhere is one alternative. -/
theorem Proper.alternatives_eq {known : List Char → Prop} (h : expr.Proper known false) :
    expr.alternatives rule = [expr.items rule] := by
  cases expr with
  | alt a b => exact absurd h.1 Bool.false_ne_true
  | _ => exact (congrArg (fun items => [items]) (List.append_nil _)).symm

/--
The source of a proper expression with nothing from outside reads as the alternatives, or else the
items, of what is left of it under the flags in force.
-/
theorem Proper.readsBranches [Interpreter] (h : expr.Proper (fun _ => False) bare) :
    ReadsBranches verbose rule expr.source ((expr.seen verbose).alternatives rule) ∧
      (bare = false → ReadsItems verbose rule expr.source ((expr.seen verbose).items rule)) := by
  -- an expression that is not a choice reads as one branch
  have hitems {expr : Expr} {items : List Item} {bare : Bool}
      (halternatives : expr.alternatives rule = [items]) {cs : List Char}
      (h : ReadsItems verbose rule cs items) :
      ReadsBranches verbose rule cs (expr.alternatives rule) ∧
        (bare = false → ReadsItems verbose rule cs (expr.items rule)) := by
    rw [Expr.items, halternatives, List.flatten_singleton]
    exact ⟨h.branches, fun _ => h⟩
  induction expr generalizing bare with
  | literal text => exact hitems rfl (readsItems_literalSource h)
  | codes cs => exact hitems rfl (readsItems_codes h)
  | range first last =>
    obtain ⟨cs, hcs, hbrackets⟩ := exists_brackets_range h.1 h.2
    rw [hcs]
    exact hitems rfl (PushesNode.set hbrackets).reads
  | core name =>
    by_cases hskipped : verbose ∧ name = .sp
    · obtain ⟨rfl, rfl⟩ := hskipped
      exact hitems rfl ReadsItems.space
    · have hreads : ReadsItems verbose rule name.source (name.items rule) :=
        CoreRule.readsItems fun hverbose hsp => hskipped ⟨hverbose, hsp⟩
      have hseen : (core name).seen verbose = core name := by
        cases name with
        | sp => exact if_neg fun hverbose => hskipped ⟨hverbose, rfl⟩
        | _ => rfl
      rw [hseen]
      exact hitems rfl hreads
  | foreign source => exact h.elim
  | seq a b iha ihb => exact hitems rfl (((iha h.1).2 rfl).append ((ihb h.2).2 rfl))
  | alt a b iha ihb =>
    obtain ⟨rfl, ha, hb⟩ := h
    have hbar := ((iha ha).2 rfl).bar (ihb hb).1 (alternatives_ne_nil rule _)
    have halternatives : ((alt a b).seen verbose).alternatives rule =
        (a.seen verbose).items rule :: (b.seen verbose).alternatives rule := by
      rw [Expr.seen, alternatives, (ha.seen verbose).alternatives_eq]
      rfl
    rw [halternatives]
    exact ⟨hbar, nofun⟩
  | grouped body ih => exact hitems rfl (ih h).1.parenthesise.reads
  | optional body ih =>
    exact hitems rfl ((ih h).1.parenthesise.quantified fun s => State.readAll_question)
  | repeated times body ih =>
    exact hitems rfl ((ih h.2).1.parenthesise.quantified fun s => h.1.readAll_source)

/--
What a proper expression is read as denotes its language, for that is what its source reads as.
-/
theorem Proper.denotes (h : expr.Proper (fun _ => False) bare) :
    Denotes (expr.node .exact) expr.language := by
  have hbranches : ReadsBranches false .exact expr.source ((expr.seen false).alternatives .exact) :=
    h.readsBranches.1
  rw [seen_false] at hbranches
  exact hbranches.denotes h.reads_source.1

/-- A proper expression is a pattern of what it is read as, under all flags that go together. -/
theorem Proper.compile_source [Interpreter] (h : expr.Proper (fun _ => False) bare) {flags : Flags}
    (hlocale : flags.locale = false) (halphabet : (flags.ascii && flags.unicode) = false) :
    Pattern.compile expr.source flags = .ok ⟨expr.source, flags.settled, [],
      (expr.seen flags.verbose).node flags.caseRule⟩ :=
  h.readsBranches.1.compile hlocale halphabet

end Expr

end Abnf.Grammar
