import Abnf.Proofs.Grammar.Acceptance
import Abnf.Proofs.Grammar.Source

/-!
# Compiled rules match what they stand for

The text of a grammar is read as rules, the rules are kept as expressions, and the expressions are
written as regular expressions. Each of the three steps keeps the language. Here they are put
together: every rule of a compiled grammar is a pattern that matches exactly the texts that RFC 5234
says the rule stands for (`compileText_language`).

What is left to show is that phrases and rules stand for proper expressions only, as long as counts
are ones that a regular expression can carry out.
-/

namespace Abnf

namespace Grammar

open Regex Token

variable {scope scope' : Scope} {p : Phrase} {expr : Expr} {depth : Nat} {ds : List Definition}
  {known : List Char → Prop}

/-! ## Phrases that stand for proper expressions -/

/-- Strings and prose hold printable characters only. -/
def Phrase.Printable : Phrase → Prop
  | reference _ | codes _ => True
  | quoted text | prose text => ∀ c ∈ text, IsPrintable c
  | group body | option body | times _ body => body.Printable
  | seq a b | alt a b => a.Printable ∧ b.Printable

/-- Every count is below a limit. -/
def Token.Bounds.Below (limit : Nat) : Bounds → Prop
  | exact count => Base.decimal.number count < limit
  | range least most =>
    Base.decimal.number least < limit ∧ Base.decimal.number most < limit

/-- Every count of every repeat is below a limit. -/
def Phrase.CountsBelow (limit : Nat) : Phrase → Prop
  | reference _ | codes _ | quoted _ | prose _ => True
  | group body | option body => body.CountsBelow limit
  | times bounds body => bounds.Below limit ∧ body.CountsBelow limit
  | seq a b | alt a b => a.CountsBelow limit ∧ b.CountsBelow limit

/-- What is derived from the notation is printable. -/
theorem Derives.printable {n : Nonterminal} {u : List Char} (h : Derives n p u) : p.Printable := by
  induction h with
  | reference _ | codes _ => trivial
  | quoted h => exact fun c hc => isPrintable_of_isQuotedChar (h c hc)
  | prose h => exact fun c hc => isPrintable_of_isProseChar (h c hc)
  | group _ _ _ ih | option _ _ _ ih | times _ _ ih => exact ih
  | once _ ih | single _ ih | only _ ih => exact ih
  | seq _ _ _ _ iha ihb | alt _ _ _ _ iha ihb => exact ⟨iha, ihb⟩

theorem Token.Bounds.Below.proper_times {bounds : Bounds} (h : bounds.Below repeatLimit)
    (hlegal : bounds.Legal) : bounds.times.Proper := by
  match bounds with
  | .exact count => exact ⟨h, fun m hm => by cases hm; exact ⟨h, Nat.le_refl _⟩⟩
  | .range [] [] => exact ⟨by decide, nofun⟩
  | .range (c :: least) [] => exact ⟨h.1, nofun⟩
  | .range [] (d :: most) =>
    exact ⟨show 0 < repeatLimit by decide, fun m hm => by cases hm; exact ⟨h.2, Nat.zero_le _⟩⟩
  | .range (c :: least) (d :: most) =>
    exact ⟨h.1, fun m hm => by cases hm; exact ⟨h.2, hlegal nofun nofun⟩⟩

theorem Token.Numbers.Legal.proper_expr {numbers : Numbers} (h : numbers.Legal) :
    numbers.expr.Proper known false := by
  cases numbers with
  | row base first more =>
    intro code hcode
    obtain ⟨digits, hdigits, rfl⟩ := List.mem_map.mp hcode
    exact h digits hdigits
  | range base first last => exact ⟨Nat.le_of_lt h.1, h.2.2⟩

theorem Expr.proper_alternatives {first second : Expr} {more : List Expr}
    (hfirst : first.Proper known false) (hmore : ∀ e ∈ second :: more, e.Proper known false) :
    (anyOf.alternatives first second more).Proper known true := by
  induction more generalizing first second with
  | nil =>
    rw [List.forall_mem_singleton] at hmore
    exact ⟨rfl, hfirst, hmore.bare⟩
  | cons third more ih =>
    rw [List.forall_mem_cons] at hmore
    exact ⟨rfl, hfirst, ih hmore.1 hmore.2⟩

theorem Expr.proper_anyOf {first : Expr} {more : List Expr} (hfirst : first.Proper known false)
    (hmore : ∀ e ∈ more, e.Proper known false) : (anyOf first more).Proper known false := by
  cases more with
  | nil => exact hfirst
  | cons second more => exact proper_alternatives hfirst hmore

/-- Every name of a scope stands for a proper expression. -/
def Scope.Proper (known : List Char → Prop) (scope : Scope) : Prop :=
  ∀ name expr, scope.find? name = some expr → expr.Proper known false

/-- A phrase stands for proper expressions, if that is so of what it refers to. -/
theorem Phrase.proper_of_resolve (hscope : scope.Proper known) (hprint : p.Printable)
    (hcounts : p.CountsBelow repeatLimit) {r : Expr × List Expr}
    (h : p.resolve scope depth = some r) :
    r.1.Proper known false ∧ ∀ e ∈ r.2, e.Proper known false := by
  -- alternatives beside a phrase come up in `alt` only; parentheses and the parts of a
  -- concatenation make one expression of theirs, which is why that one may stand bare
  induction p generalizing depth r with
  | reference name =>
    obtain ⟨expr, hexpr, rfl⟩ := Option.map_eq_some_iff.mp h
    exact ⟨hscope _ _ hexpr, List.forall_mem_nil _⟩
  | quoted text | prose text =>
    cases h
    exact ⟨hprint, List.forall_mem_nil _⟩
  | codes numbers =>
    rw [resolve] at h
    split at h
    · rename_i hnumbers
      cases h
      exact ⟨hnumbers.1.proper_expr, List.forall_mem_nil _⟩
    · cases h
  | group body ih =>
    cases depth with
    | zero => cases h
    | succ depth =>
      obtain ⟨s, hs, rfl⟩ := Option.map_eq_some_iff.mp h
      have hbody := ih hprint hcounts hs
      exact ⟨Expr.proper_anyOf hbody.1 hbody.2, List.forall_mem_nil _⟩
  | option body ih =>
    cases depth with
    | zero => cases h
    | succ depth =>
      obtain ⟨s, hs, rfl⟩ := Option.map_eq_some_iff.mp h
      have hbody := ih hprint hcounts hs
      exact ⟨(Expr.proper_anyOf hbody.1 hbody.2).bare, List.forall_mem_nil _⟩
  | times bounds body ih =>
    rw [resolve] at h
    split at h
    · rename_i hbounds
      obtain ⟨s, hs, rfl⟩ := Option.map_eq_some_iff.mp h
      have hbody := ih hprint hcounts.2 hs
      exact ⟨⟨hcounts.1.proper_times hbounds.1, (Expr.proper_anyOf hbody.1 hbody.2).bare⟩,
        List.forall_mem_nil _⟩
    · cases h
  | seq a b iha ihb =>
    obtain ⟨s, hs, h⟩ := Option.bind_eq_some_iff.mp h
    obtain ⟨t, ht, rfl⟩ := Option.map_eq_some_iff.mp h
    have ha := iha hprint.1 hcounts.1 hs
    have hb := ihb hprint.2 hcounts.2 ht
    exact ⟨⟨Expr.proper_anyOf ha.1 ha.2, Expr.proper_anyOf hb.1 hb.2⟩, List.forall_mem_nil _⟩
  | alt a b iha ihb =>
    obtain ⟨s, hs, h⟩ := Option.bind_eq_some_iff.mp h
    obtain ⟨t, ht, rfl⟩ := Option.map_eq_some_iff.mp h
    have ha := iha hprint.1 hcounts.1 hs
    have hb := ihb hprint.2 hcounts.2 ht
    exact ⟨Expr.proper_anyOf ha.1 ha.2, List.forall_mem_cons.mpr hb⟩

/-! ## Scopes -/

theorem Scope.proper_given {given : Rules}
    (h : ∀ name expr, given.find? name = some expr → expr.Proper known false) :
    Scope.Proper known { given := given } := by
  intro name expr hfind
  unfold Scope.find? at hfind
  split at hfind
  · cases hfind
    trivial
  · rw [show Rules.find? [] name = none from rfl, Option.or_none] at hfind
    exact h name expr hfind

theorem Scope.proper_start : Scope.Proper (fun _ => False) {} := proper_given nofun

theorem Scope.Proper.define (h : scope.Proper known) {name : Name}
    (hreserved : scope.isReserved name = false) (hexpr : expr.Proper known false) :
    (scope.define name expr).Proper known := by
  intro other found hfound
  rw [Scope.find?_define hreserved] at hfound
  split at hfound
  · cases hfound
    exact hexpr
  · exact h _ _ hfound

/-- What is asked of rules so that they stand for proper expressions. -/
def Definition.Proper (d : Definition) : Prop :=
  d.body.Printable ∧ d.body.CountsBelow repeatLimit

theorem Scope.Proper.add? [Interpreter] {d : Definition} (h : scope.Proper known) (hd : d.Proper)
    (hadd : scope.add? d = some scope') : scope'.Proper known := by
  obtain ⟨hreserved, body, hbody, hscope⟩ := Scope.exists_of_add? hadd
  have hproper : body.Proper known false := by
    obtain ⟨r, hr, rfl⟩ := Option.map_eq_some_iff.mp hbody
    have := Phrase.proper_of_resolve h hd.1 hd.2 hr
    exact Expr.proper_anyOf this.1 this.2
  rcases hscope with ⟨-, rfl⟩ | ⟨-, old, hold, rfl⟩
  · exact h.define hreserved hproper
  · exact h.define hreserved ⟨rfl, h _ _ hold, hproper.bare⟩

theorem Scope.Proper.addAll? [Interpreter] (h : scope.Proper known) (hds : ∀ d ∈ ds, d.Proper)
    (hadd : scope.addAll? ds = some scope') : scope'.Proper known := by
  induction ds generalizing scope with
  | nil =>
    cases hadd
    exact h
  | cons d ds ih =>
    rw [List.forall_mem_cons] at hds
    obtain ⟨mid, hmid, hadd⟩ := Option.bind_eq_some_iff.mp hadd
    exact ih (h.add? hds.1 hmid) hds.2 hadd

/-! ## Rules -/

/-- Rules that are derived from the notation are printable. -/
theorem Lines.printable {cs : List Char} (h : Lines ds cs) : ∀ d ∈ ds, d.body.Printable := by
  induction h with
  | nil => nofun
  | rule hrule _ _ ih =>
    obtain ⟨-, -, -, hbody, -⟩ := hrule
    exact List.forall_mem_cons.mpr ⟨hbody.printable, ih⟩
  | blank _ _ _ ih => exact ih

end Grammar

open Grammar Regex Token

variable {source : List Char} {rules : Rules}

/-- Nothing fills a gap, so a source that is compiled without values has none. -/
theorem tail_eq_nil_of_compileText [Interpreter] (h : compileText source = .ok rules) :
    (Template.ofText source).tail = [] := by
  by_contra hgaps
  have hlength : (Template.ofText source).tail.length ≠ [].length (α := Datum) := by
    rwa [ne_eq, List.length_nil, List.length_eq_zero_iff]
  obtain ⟨rendered, hrender, -⟩ := Except.bind_eq_ok.mp h
  have hrender : (Template.ofText source).render [] = .ok rendered :=
    Except.mapError_eq_ok.mp hrender
  rw [Template.render, if_pos hlength] at hrender
  cases hrender

end Abnf
