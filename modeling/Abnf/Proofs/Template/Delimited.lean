import Abnf.Proofs.Grammar.Items
import Abnf.Proofs.Template.Placeholders

/-!
# Expressions that delimit themselves

The expressions of rules are put together by writing their texts beside each other, behind
parentheses and before quantifiers, and nothing is ever read again to see whether that is right. It
is, if each of them is an expression of its own that ends where its text ends: what comes before it
and behind it never joins it to a longer escape, set or quantifier (`SelfDelimiting`).

This is so of everything that a rule can stand for at any point of a reading, as long as no pattern
from outside is let in. The reading may still fail later on (`assemble_selfDelimiting`).
-/

namespace Abnf

open Grammar Template Token

namespace Regex

variable {flags : Flags} {source : List Char} {items : List Item}

/--
The items that a text reads as, if it is an expression with no alternatives side by side and no
group that captures.
-/
def parse? [Interpreter] (flags : Flags) (source : List Char) : Option (List Item) :=
  match (State.start flags).readFrom 0 source with
  | .ok s =>
    if s.level.branches.isEmpty && s.groups.isEmpty then some s.level.items.reverse else none
  | .error _ => none

/--
What `parse?` asks: the reader gets to the end, beside no alternatives and with no group numbered.
-/
theorem parse?_eq_some [Interpreter] : parse? flags source = some items ↔
    ∃ s, (State.start flags).readFrom 0 source = .ok s ∧ s.level.branches = [] ∧ s.groups = [] ∧
      s.level.items.reverse = items := by
  unfold parse?
  split
  · rename_i s hread
    rw [hread]
    simp only [Bool.and_eq_true, List.isEmpty_iff, Option.ite_none_right_eq_some, Option.some.injEq,
      Except.ok.injEq, exists_eq_left', and_assoc]
  · rename_i hread
    rw [hread]
    simp

/-- The items are what the pattern of the text says, in order. -/
theorem compile_of_parse? [Interpreter] (h : parse? flags source = some items) : ∃ p : Pattern,
    Pattern.compile source flags = .ok p ∧ p.groups = [] ∧ p.node = Item.sequence items := by
  obtain ⟨s, hread, hbranches, hgroups, rfl⟩ := parse?_eq_some.mp h
  refine ⟨_, Except.bind_eq_ok.mpr ⟨s, hread, rfl⟩, ?_, ?_⟩
  · -- a pattern has the groups that were numbered on the way, none here
    rw [hgroups]
    rfl
  · rw [Level.body, hbranches, Level.branch_eq]
    rfl

/-- Flags that can be in force together over text. -/
def Flags.GoTogether (flags : Flags) : Prop :=
  flags.locale = false ∧ (flags.ascii && flags.unicode) = false

/-- What reads as items wherever it stands reads as these items on its own. -/
theorem ReadsItems.parse? [Interpreter] (h : ReadsItems flags.verbose flags.caseRule source items)
    (hflags : flags.GoTogether) : parse? flags source = some items := by
  -- the reader ends between items, so that no construct is left open and nothing is added at the
  -- end
  obtain ⟨mode, hmode, hread⟩ := h (State.start flags) ⟨.inl rfl, rfl, rfl⟩
  refine parse?_eq_some.mpr ⟨(State.start flags).add items.reverse mode, ?_, rfl, rfl, ?_⟩
  · exact State.readFrom_eq_ok.mpr
      ⟨_, hread, Mode.Between.finish hmode rfl hflags.1 hflags.2 nofun⟩
  · exact (congrArg List.reverse (List.append_nil _)).trans (List.reverse_reverse _)

end Regex

open Regex

namespace Grammar

variable {scope : Scope} {flags : Flags} {u : List Char}

/-- The source of a rule that is defined by now, or of a core rule. -/
inductive Stored (scope : Scope) : List Char → Prop
  | rule {name : Name} {expr : Expr} : (name, expr) ∈ scope.defined → Stored scope expr.source
  | core (core : CoreRule) : Stored scope core.source

/-- What is written behind parentheses to repeat them, and how often it repeats them. -/
inductive Quantifies : List Char → Nat → Option Nat → Prop
  | option : Quantifies ['?'] 0 (some 1)
  | times {bounds : Bounds} {left : List Char} {times : Repeat} : bounds.Below repeatLimit →
      resolveBounds bounds left = .ok times → Quantifies times.source times.least times.most

/-- The sources that are stored keep to themselves, whatever is put beside them or around them. -/
structure SelfDelimiting [Interpreter] (flags : Flags) (scope : Scope) : Prop where
  /-- A source is an expression of its own and says what it reads as. -/
  complete : ∀ u, Stored scope u → ∃ items p, parse? flags u = some items ∧
    Pattern.compile u flags = .ok p ∧ p.groups = [] ∧ p.node = Item.sequence items
  /-- Two sources beside each other read as the first and then the second. -/
  append : ∀ u v, Stored scope u → Stored scope v → ∃ items later, parse? flags u = some items ∧
    parse? flags v = some later ∧ parse? flags (u ++ v) = some (items ++ later)
  /-- A source in parentheses is what a quantifier behind them repeats. -/
  quantified : ∀ u quantifier least most, Stored scope u → Quantifies quantifier least most →
    ∃ items, parse? flags u = some items ∧ parse? flags (Expr.parenthesise u ++ quantifier) =
      some [.repeated .greedy least most (Item.sequence items)]

/--
Behind parentheses, a quantifier of rules is read as a quantifier, and not as braces that say
nothing.
-/
theorem Quantifies.readAll [Interpreter] {quantifier : List Char} {least : Nat} {most : Option Nat}
    (h : Quantifies quantifier least most) {s : State} (hmode : s.mode = .plain) :
    s.readAll quantifier = s.quantify least most := by
  cases h with
  | option => exact State.readAll_question hmode
  | times hbelow hresolve =>
    obtain ⟨⟨hlegal, -⟩, rfl⟩ := resolveBounds_eq_ok.mp hresolve
    exact (hbelow.proper_times hlegal).readAll_source hmode

/-- Every stored source reads as items, wherever it stands. -/
theorem Stored.exists_readsItems [Interpreter]
    (hscope : ∀ rule ∈ scope.defined, rule.2.Proper (fun _ => False) false) (h : Stored scope u)
    (verbose : Bool) (rule : CaseRule) : ∃ items, ReadsItems verbose rule u items := by
  cases h with
  | rule hmem => exact ⟨_, (hscope _ hmem).readsBranches.2 rfl⟩
  | core core =>
    -- a core rule is the expression that consists of it
    have hcore : (Expr.core core).Proper (fun _ => False) false := trivial
    exact ⟨_, hcore.readsBranches.2 rfl⟩

/-- The three laws, from what the sources of proper expressions read as. -/
theorem selfDelimiting_of_proper [Interpreter] (hflags : flags.GoTogether)
    (hscope : ∀ rule ∈ scope.defined, rule.2.Proper (fun _ => False) false) :
    SelfDelimiting flags scope := by
  have hreads {u : List Char} (hu : Stored scope u) :
      ∃ items, ReadsItems flags.verbose flags.caseRule u items :=
    hu.exists_readsItems hscope _ _
  refine ⟨fun u hu => ?_, fun u v hu hv => ?_, fun u quantifier least most hu hquantifier => ?_⟩
  · -- alone
    obtain ⟨items, hitems⟩ := hreads hu
    have hparse := hitems.parse? hflags
    obtain ⟨p, hp⟩ := compile_of_parse? hparse
    exact ⟨items, p, hparse, hp⟩
  · obtain ⟨items, hitems⟩ := hreads hu
    obtain ⟨later, hlater⟩ := hreads hv
    exact ⟨items, later, hitems.parse? hflags, hlater.parse? hflags,
      (hitems.append hlater).parse? hflags⟩
  · obtain ⟨items, hitems⟩ := hreads hu
    have hgroup := hitems.branches.parenthesise.quantified fun s => hquantifier.readAll (s := s)
    exact ⟨items, hitems.parse? hflags, hgroup.parse? hflags⟩

end Grammar

namespace Template

variable {source : Datum} {values : List Datum} {r : Rendered}

/-- A datum that is spliced in as strings, if it is at all. -/
def Worded [Interpreter] (datum : Datum) : Prop :=
  ∀ value, Value.ofDatum datum = .ok value → value.pattern? = none

/-- There are no patterns among the values of such data. -/
theorem filterMap_pattern?_of_worded [Interpreter] {vs : List Value}
    (hvalues : ∀ datum ∈ values, Worded datum)
    (h : List.Forall₂ (fun datum value => Value.ofDatum datum = .ok value) values vs) :
    vs.filterMap Value.pattern? = [] := by
  induction h with
  | nil => rfl
  | cons hvalue _ ih =>
    rw [List.forall_mem_cons] at hvalues
    rw [List.filterMap_cons_none (hvalues.1 _ hvalue), ih hvalues.2]

/-- A template that is filled with strings is given no patterns by name. -/
theorem given_of_worded [Interpreter] (h : assemble source values = .ok r)
    (hvalues : ∀ datum ∈ values, Worded datum) : r.given = [] := by
  obtain ⟨template, -, hrender⟩ := Except.bind_eq_ok.mp h
  obtain ⟨vs, hvs, hnamed⟩ := named_of_render hrender
  rw [Rendered.given, hnamed.named_eq, patternsOf, filterMap_pattern?_of_worded hvalues hvs]
  rfl

end Template

/--
At every point of the reading of a template that is filled with strings, the sources of the rules
that are defined by then delimit themselves, and so do those of the core rules, if the counts that
have been read can be carried out.
-/
theorem assemble_selfDelimiting [Interpreter] {source : Datum} {values : List Datum} {r : Rendered}
    {scope : Scope}
    {rest : List Char} (h : assemble source values = .ok r)
    (hvalues : ∀ datum ∈ values, Worded datum) (hpoint : ReadsTo r.given r.text scope rest) :
    ∃ passed, r.text = passed ++ rest ∧ (∃ ds, Ended ds passed) ∧
      ∀ ds, Ended ds passed → (∀ d ∈ ds, d.body.CountsBelow repeatLimit) →
        ∀ flags : Flags, flags.GoTogether → SelfDelimiting flags scope := by
  rw [given_of_worded h hvalues] at hpoint
  obtain ⟨passed, htext, hended, hadd⟩ := hpoint.of_ended
  refine ⟨passed, htext, hended, fun ds hds hcounts flags hflags => ?_⟩
  -- no pattern is let in, so every body that is defined by now is proper on its own
  have hscope : scope.Proper (fun _ => False) :=
    Scope.proper_start.addAll? (fun d hd => ⟨hds.lines.printable d hd, hcounts d hd⟩) (hadd ds hds)
  refine selfDelimiting_of_proper hflags fun ⟨name, expr⟩ hrule => ?_
  exact hscope name expr ((Scope.distinct_start.addAll? (hadd ds hds)).find?_of_mem hrule)

/-- A rule with a repeat and a gap, and a line that is refused. -/
def refusedTemplate : List Char := "a=2\"x\"\x7b\x7d\nc".toList

/-- The template with the string `b` in its gap. -/
def refusedText : List Char := "a=2\"x\" \"b\" \nc".toList

/-- The rule of the first line. -/
def refusedRule : Definition :=
  ⟨['a'], false, .seq (.times (.exact ['2']) (.quoted ['x'])) (.quoted ['b'])⟩

/-- What is defined behind the first line. -/
def refusedScope : Scope :=
  { defined := [(['a'], .seq (.repeated (.exactly 2) (.literal ['x'])) (.literal ['b']))] }

theorem ruleText_refusedRule : RuleText refusedRule "a=2\"x\" \"b\" ".toList := by
  have hcopies : Derives .repetition (.times (.exact ['2']) (.quoted ['x'])) ['2', '"', 'x', '"'] :=
    .times (v := ['2']) (.exact (.digit (by decide))) (.quoted (by simp; decide))
  have hstring : Derives .repetition (.quoted ['b']) ['"', 'b', '"'] :=
    .once (.quoted (by simp; decide))
  have hbody : Derives .alternation refusedRule.body
      (['2', '"', 'x', '"'] ++ ([' '] ++ ([] ++ ['"', 'b', '"']))) :=
    .only (.seq (.single hcopies) (.blank (by decide)) .nil hstring)
  exact .mk (d := refusedRule) (.letter (by decide)) .nil .nil hbody
    (.cons (.blank (by decide)) .nil)

theorem assemble_selfDelimiting_refused :
    assemble (.text refusedTemplate) [.text ['b']] = .ok { text := refusedText } ∧
      compile (.text refusedTemplate) [.text ['b']] =
        .error (.grammar refusedText ⟨.expected .definedAs, 13⟩) ∧
      (∀ datum ∈ [Datum.text ['b']], Worded datum) ∧
      ReadsTo [] refusedText refusedScope ['\n', 'c'] ∧
      Flags.GoTogether {} ∧ SelfDelimiting {} refusedScope := by
  have hassemble : assemble (.text refusedTemplate) [.text ['b']] =
    .ok { text := refusedText } := by
    decide +kernel
  have hvalues : ∀ datum ∈ [Datum.text ['b']], Worded datum := by
    refine List.forall_mem_singleton.mpr fun value hvalue => ?_
    cases hvalue
    rfl
  -- the first line is read as it stands, and what follows is refused behind it
  have hline : readLine {} refusedText = .ok ((refusedScope, true), ['\n', 'c']) := rfl
  have hpoint : ReadsTo [] refusedText refusedScope ['\n', 'c'] :=
    .behind .start hline
  have hflags : Flags.GoTogether {} := ⟨rfl, rfl⟩
  refine ⟨hassemble, by decide +kernel, hvalues, hpoint, hflags, ?_⟩
  obtain ⟨passed, htext, -, hdelimits⟩ := assemble_selfDelimiting hassemble hvalues hpoint
  have hpassed : "a=2\"x\" \"b\" ".toList ++ ['\n', 'c'] = passed ++ ['\n', 'c'] := htext
  have hended : Ended [refusedRule] passed := by
    rw [← List.append_cancel_right hpassed]
    exact .rule ruleText_refusedRule .nothing
  have hcount : Base.decimal.number ['2'] < repeatLimit := by decide
  refine hdelimits _ hended ?_ _ hflags
  rw [List.forall_mem_singleton]
  exact ⟨⟨hcount, trivial⟩, trivial⟩

end Abnf
