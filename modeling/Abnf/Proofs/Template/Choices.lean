import Abnf.Proofs.Distinct
import Abnf.Proofs.Grammar.Items
import Abnf.Proofs.Template.Strings
import Mathlib.Data.Char

/-!
# Strings to choose from in a gap

Several strings in a gap become alternatives in parentheses, and a regular expression takes the
first alternative that matches. So what a rule of strings takes from the start of a text is the
first of them that the text starts with, in the order in which they were given
(`compile_oneGap_choices`).

A set has no order, and is put in one: longer strings come first. The first is then the longest, and
the rule is the same however the members of the set are listed.
-/

namespace Abnf

open Grammar Token Regex Template

variable {texts others : List (List Char)} {exprs : List Expr} {expr : Expr} {s t u : List Char}
  {p q : Place}

/-! ## The order of a set -/

namespace Template.Value

variable {a b c : List Char}

theorem noLater_cons (x y : Char) (xs ys : List Char) :
    noLater (x :: xs) (y :: ys) ↔ x < y ∨ x = y ∧ noLater xs ys := by
  simp [noLater]

theorem noLater_total (a b : List Char) : noLater a b ∨ noLater b a := by
  induction a generalizing b with
  | nil => exact .inl rfl
  | cons x a ih =>
    cases b with
    | nil => exact .inr rfl
    | cons y b =>
      rw [noLater_cons, noLater_cons]
      rcases lt_trichotomy x y with hlt | rfl | hlt
      · exact .inl (.inl hlt)
      · exact (ih b).imp (fun h => .inr ⟨rfl, h⟩) fun h => .inr ⟨rfl, h⟩
      · exact .inr (.inl hlt)

theorem noLater_trans (h : noLater a b) (h' : noLater b c) : noLater a c := by
  induction a generalizing b c with
  | nil => rfl
  | cons x a ih =>
    cases b with
    | nil => cases h
    | cons y b =>
      cases c with
      | nil => cases h'
      | cons z c =>
        rw [noLater_cons] at h h' ⊢
        rcases h with h | ⟨rfl, h⟩
        · rcases h' with h' | ⟨rfl, -⟩
          · exact .inl (lt_trans h h')
          · exact .inl h
        · exact h'.imp_right fun ⟨heq, h'⟩ => ⟨heq, ih h h'⟩

theorem noLater_antisymm (h : noLater a b) (h' : noLater b a) : a = b := by
  -- the first place at which they differ would have to be less in both directions
  induction a generalizing b with
  | nil =>
    cases b with
    | nil => rfl
    | cons y b => cases h'
  | cons x a ih =>
    cases b with
    | nil => cases h
    | cons y b =>
      rw [noLater_cons] at h h'
      rcases h with h | ⟨rfl, h⟩
      · rcases h' with h' | ⟨rfl, -⟩
        · exact absurd h' (lt_asymm h)
        · exact absurd h (lt_irrefl _)
      · rcases h' with h' | ⟨-, h'⟩
        · exact absurd h' (lt_irrefl _)
        · rw [ih h h']

theorem inOrder_iff :
    inOrder a b ↔ b.length < a.length ∨ a.length = b.length ∧ noLater a b := by
  simp [inOrder]

theorem inOrder_total (a b : List Char) : inOrder a b || inOrder b a := by
  rw [Bool.or_eq_true, inOrder_iff, inOrder_iff]
  rcases lt_trichotomy a.length b.length with hlt | heq | hlt
  · exact .inr (.inl hlt)
  · exact (noLater_total a b).imp (fun h => .inr ⟨heq, h⟩) fun h => .inr ⟨heq.symm, h⟩
  · exact .inl (.inl hlt)

theorem inOrder_trans (h : inOrder a b) (h' : inOrder b c) : inOrder a c := by
  rw [inOrder_iff] at h h' ⊢
  rcases h with h | ⟨heq, h⟩
  · rcases h' with h' | ⟨heq', -⟩
    · exact .inl (by omega)
    · exact .inl (by omega)
  · rcases h' with h' | ⟨heq', h'⟩
    · exact .inl (by omega)
    · exact .inr ⟨heq.trans heq', noLater_trans h h'⟩

theorem inOrder_antisymm (h : inOrder a b) (h' : inOrder b a) : a = b := by
  rw [inOrder_iff] at h h'
  rcases h with h | ⟨heq, h⟩
  · rcases h' with h' | ⟨heq', -⟩ <;> omega
  · rcases h' with h' | ⟨-, h'⟩
    · omega
    · exact noLater_antisymm h h'

/-- The members of a set come in the same order however they are listed. -/
theorem sorted_eq (h : ∀ s, s ∈ others ↔ s ∈ texts) : sorted others = sorted texts :=
  @mergeSort_eraseDups_eq _ _ _ inOrder (fun _ _ _ => inOrder_trans) inOrder_total
    (fun _ _ => inOrder_antisymm) _ _ h

theorem mem_sorted : s ∈ sorted texts ↔ s ∈ texts := by
  rw [sorted, List.mem_mergeSort, List.mem_eraseDups]

/-- No member of a set comes before a longer one. -/
theorem pairwise_sorted (texts : List (List Char)) :
    (sorted texts).Pairwise fun a b => b.length ≤ a.length := by
  have hsorted : (sorted texts).Pairwise fun a b => inOrder a b :=
    @List.pairwise_mergeSort _ inOrder (fun _ _ _ => inOrder_trans) inOrder_total _
  refine hsorted.imp fun h => ?_
  rw [inOrder_iff] at h
  omega

/-! ## Collections as values -/

theorem every_checkText (texts : List (List Char)) (position : Nat) :
    Checked.every Datum.checkText position (texts.map .text) = .ok texts := by
  induction texts generalizing position with
  | nil => rfl
  | cons s texts ih =>
    rw [List.map_cons, Checked.every, ih]
    rfl

theorem ofDatum_list [Interpreter] (texts : List (List Char)) :
    ofDatum (.list (texts.map .text)) = .ok (.choices texts) := by
  change ofTexts (.list (texts.map .text)) = _
  rw [ofTexts, Datum.checkTexts, every_checkText]
  rfl

theorem ofDatum_tuple [Interpreter] (texts : List (List Char)) :
    ofDatum (.tuple (texts.map .text)) = .ok (.choices texts) := by
  change ofTexts (.tuple (texts.map .text)) = _
  rw [ofTexts, Datum.checkTexts, every_checkText]
  rfl

theorem ofDatum_set [Interpreter] (texts : List (List Char)) :
    ofDatum (.set (texts.map .text)) = .ok (.choices (sorted texts)) := by
  have hmembers : (texts.map Datum.text).mapM Datum.text? = some texts := by
    induction texts with
    | nil => rfl
    | cons s texts ih =>
      rw [List.map_cons, List.mapM_cons, ih]
      rfl
  change ofSet (texts.map .text) = _
  rw [ofSet, hmembers]

end Template.Value

/-! ## Alternatives that spell strings -/

/-- A text starts with a string, up to the case of the letters of ASCII. -/
def StartsWith (t s : List Char) : Prop := ∃ u v, t = u ++ v ∧ List.Forall₂ SameLetter s u

/-- An expression that may stand anywhere and matches a string in any case. -/
structure Spelled (expr : Expr) (s : List Char) : Prop where
  proper : expr.Proper (fun _ => False) false
  language : expr.language = inAnyCase s

namespace Spelled

theorem denotes (h : Spelled expr s) : Denotes (expr.node .exact) (inAnyCase s) := by
  rw [← h.language]
  exact h.proper.denotes

/-- Where the string is not to come, there is no way. -/
theorem startsWith_of_mem (h : Spelled expr s) (hq : q ∈ (expr.node .exact).ways p) :
    StartsWith p.after s ∧ ∃ u, p.Moves u q ∧ List.Forall₂ SameLetter s u := by
  obtain ⟨⟨u, hu, hmoves⟩, -⟩ := (h.denotes p q).mp hq
  have hsame := mem_inAnyCase_iff.mp hu
  exact ⟨⟨u, q.after, hmoves.after, hsame⟩, u, hmoves, hsame⟩

theorem ways_ne_nil (h : Spelled expr s) (hstarts : StartsWith p.after s) :
    (expr.node .exact).ways p ≠ [] := by
  obtain ⟨u, v, hafter, hsame⟩ := hstarts
  have hmoves : p.Moves u ⟨u.reverse ++ p.before, v, p.captures⟩ := ⟨hafter, rfl⟩
  exact List.ne_nil_of_mem
    ((h.denotes p _).mpr ⟨⟨u, mem_inAnyCase_iff.mpr hsame, hmoves⟩, rfl⟩)

theorem forall_proper (h : List.Forall₂ Spelled exprs texts) :
    ∀ e ∈ exprs, e.Proper (fun _ => False) false := by
  induction h with
  | nil => exact List.forall_mem_nil _
  | cons hexpr _ ih => exact List.forall_mem_cons.mpr ⟨hexpr.proper, ih⟩

/-- Together the alternatives match the texts that are one of the strings. -/
theorem sum_language (h : List.Forall₂ Spelled exprs texts) :
    (exprs.map Expr.language).sum = {u | ∃ s ∈ texts, List.Forall₂ SameLetter s u} := by
  induction h with
  | nil =>
    ext u
    refine iff_of_false (Language.notMem_zero u) ?_
    rintro ⟨s, hs, -⟩
    cases hs
  | cons hexpr _ ih =>
    ext u
    rw [List.map_cons, List.sum_cons, Language.mem_add, ih, hexpr.language, mem_inAnyCase_iff]
    change _ ∨ (∃ s ∈ _, _) ↔ ∃ s ∈ _ :: _, _
    rw [List.exists_mem_cons_iff]

/-- **The first way of all** is one of the first alternative whose string is to come. -/
theorem exists_first (h : List.Forall₂ Spelled exprs texts)
    (hq : q ∈ (exprs.flatMap fun e => (e.node .exact).ways p).head?) :
    ∃ earlier s later, texts = earlier ++ s :: later ∧ (∀ r ∈ earlier, ¬ StartsWith p.after r) ∧
      StartsWith p.after s ∧ ∃ u, p.Moves u q ∧ List.Forall₂ SameLetter s u := by
  induction h with
  | nil => cases hq
  | @cons expr s exprs texts hexpr _ ih =>
    rw [List.flatMap_cons, List.head?_append] at hq
    by_cases hstarts : StartsWith p.after s
    · -- the first alternative has ways, so the first of them is the one
      obtain ⟨first, hfirst⟩ := List.exists_mem_of_ne_nil _ (hexpr.ways_ne_nil hstarts)
      obtain ⟨first, more, hways⟩ := List.exists_cons_of_ne_nil (List.ne_nil_of_mem hfirst)
      rw [hways] at hq
      cases hq
      have hmem : q ∈ (expr.node .exact).ways p := hways ▸ List.mem_cons_self
      exact ⟨[], s, texts, rfl, List.forall_mem_nil _, hstarts, (hexpr.startsWith_of_mem hmem).2⟩
    · have hnone : (expr.node .exact).ways p = [] :=
        List.eq_nil_iff_forall_not_mem.mpr fun other hother =>
          hstarts (hexpr.startsWith_of_mem hother).1
      rw [hnone] at hq
      obtain ⟨earlier, r, later, rfl, hearlier, hr⟩ := ih hq
      exact ⟨s :: earlier, r, later, rfl, List.forall_mem_cons.mpr ⟨hstarts, hearlier⟩, hr⟩

end Spelled

/-- Non-empty strings are written as alternatives that are read as expressions of them. -/
theorem exists_alternation {first : List Char} {more : List (List Char)}
    (h : ∀ s ∈ first :: more, s ≠ [] ∧ ¬ List.replicate repeatLimit '"' <:+: s) (depth : Nat) :
    ∃ body r, Derives .alternation body
        ([' ', '/', ' '].intercalate ((first :: more).map literalToAbnf)) ∧
      body.resolve {} depth = some r ∧ List.Forall₂ Spelled (r.1 :: r.2) (first :: more) := by
  induction more generalizing first with
  | nil =>
    rw [List.forall_mem_singleton] at h
    obtain ⟨p, hp⟩ := exists_spells_concatenation h.1 h.2
    obtain ⟨expr, hexpr, hproper, hlanguage⟩ := hp.exists_expr depth
    refine ⟨p, (expr, []), ?_, ?_, .cons ⟨hproper, hlanguage⟩ .nil⟩
    · rw [List.map_singleton, List.intercalate_singleton]
      exact hp.derives.only
    · rw [hp.derives.resolve_eq nofun, hexpr]
      rfl
  | cons second more ih =>
    rw [List.forall_mem_cons] at h
    obtain ⟨p, hp⟩ := exists_spells_concatenation h.1.1 h.1.2
    obtain ⟨expr, hexpr, hproper, hlanguage⟩ := hp.exists_expr depth
    obtain ⟨body, r, hbody, hr, hspelled⟩ := ih h.2
    have hresolve : p.resolve {} depth = some (expr, []) := by
      rw [hp.derives.resolve_eq nofun, hexpr]
      rfl
    have hblank : Blanks [' '] := .cons (.blank (by decide)) .nil
    refine ⟨.alt p body, (expr, r.1 :: r.2), ?_, ?_, .cons ⟨hproper, hlanguage⟩ hspelled⟩
    · have halt := Derives.alt hp.derives hblank hblank hbody
      rw [List.map_cons, List.map_cons, List.intercalate_cons_cons, ← List.map_cons]
      simpa using halt
    · rw [Phrase.resolve, hresolve, hr]
      rfl

/-! ## The rule of the strings -/

/-- A text starts with a string of a list, and with no other before it but empty ones. -/
def FirstOf (texts : List (List Char)) (t s : List Char) : Prop :=
  ∃ earlier later, texts = earlier ++ s :: later ∧ ∀ r ∈ earlier, r ≠ [] → ¬ StartsWith t r

/-- A text starts with no string of a list that is longer. -/
def LongestOf (texts : List (List Char)) (t s : List Char) : Prop :=
  ∀ r ∈ texts, StartsWith t r → r.length ≤ s.length

/--
What a pattern matches that stands for strings to choose from: a text that is one of them, and from
the start of a text the one that is preferred there. Empty strings do not count.
-/
structure Chooses (pattern : Pattern) (texts : List (List Char))
    (Preferred : List Char → List Char → Prop) : Prop where
  full : ∀ t, (pattern.fullMatch? t).isSome ↔
    ∃ s ∈ texts, s ≠ [] ∧ List.Forall₂ SameLetter s t
  starts : ∀ t, (pattern.matchAt? (.start t)).isSome ↔
    ∃ s ∈ texts, s ≠ [] ∧ StartsWith t s
  taken : ∀ t found, pattern.matchAt? (.start t) = some found →
    ∃ s ∈ texts, s ≠ [] ∧ StartsWith t s ∧ Preferred t s ∧
      found.whole <+: t ∧ found.whole.length = s.length

/-- Alternatives that spell strings may stand anywhere in parentheses. -/
theorem Spelled.proper_anyOf {first : Expr} {more : List Expr}
    (h : List.Forall₂ Spelled (first :: more) texts) :
    (Expr.anyOf first more).Proper (fun _ => False) false := by
  have hall := forall_proper h
  rw [List.forall_mem_cons] at hall
  exact Expr.proper_anyOf hall.1 hall.2

/-- Their source is a pattern of them. -/
theorem Spelled.exists_pattern [Interpreter] {first : Expr} {more : List Expr}
    (h : List.Forall₂ Spelled (first :: more) texts) :
    ∃ pattern, Pattern.compile (Expr.anyOf first more).source = .ok pattern ∧
      pattern.node = (Expr.anyOf first more).node .exact := by
  have hread := @Expr.Proper.compile_source false _ _ (proper_anyOf h) {} rfl rfl
  rw [Expr.seen_false] at hread
  exact ⟨_, hread, rfl⟩

/-- Alternatives that spell the strings are such a pattern, the first of them being preferred. -/
theorem Spelled.chooses {first : Expr} {more : List Expr} {pattern : Pattern}
    (h : List.Forall₂ Spelled (first :: more) texts)
    (hpattern : pattern.node = (Expr.anyOf first more).node .exact) :
    (∀ t, (pattern.fullMatch? t).isSome ↔ ∃ s ∈ texts, List.Forall₂ SameLetter s t) ∧
    (∀ t, (pattern.matchAt? (.start t)).isSome ↔ ∃ s ∈ texts, StartsWith t s) ∧
    ∀ t found, pattern.matchAt? (.start t) = some found →
      ∃ earlier s later, texts = earlier ++ s :: later ∧ (∀ r ∈ earlier, ¬ StartsWith t r) ∧
        StartsWith t s ∧ found.whole <+: t ∧ found.whole.length = s.length := by
  have hdenotes : Denotes pattern.node {u | ∃ s ∈ texts, List.Forall₂ SameLetter s u} := by
    rw [hpattern, ← sum_language h, List.map_cons, List.sum_cons, ← Expr.language_anyOf]
    exact (proper_anyOf h).denotes
  refine ⟨hdenotes.fullMatch?_isSome_iff, fun t => ?_, fun t found hfound => ?_⟩
  · rw [hdenotes.matchAt?_isSome_iff]
    constructor
    · rintro ⟨u, v, huv, s, hs, hsame⟩
      exact ⟨s, hs, u, v, huv, hsame⟩
    · rintro ⟨s, hs, u, v, huv, hsame⟩
      exact ⟨u, v, huv, s, hs, hsame⟩
  · obtain ⟨q, hq, rfl⟩ := Option.map_eq_some_iff.mp hfound
    rw [Pattern.end?, Node.attempt_eq, findSome?_some, hpattern, Expr.ways_anyOf] at hq
    obtain ⟨earlier, s, later, htexts, hearlier, hstarts, u, hmoves, hsame⟩ := exists_first h hq
    have hwhole : (pattern.extract (.start t) q).whole = u := hmoves.upTo_eq
    rw [hwhole]
    exact ⟨earlier, s, later, htexts, hearlier, hstarts, ⟨q.after, hmoves.after.symm⟩,
      hsame.length_eq.symm⟩

/-- What is first without the empty strings is first with them. -/
theorem firstOf_of_filter {earlier later : List (List Char)}
    (h : texts.filter (!·.isEmpty) = earlier ++ s :: later)
    (hearlier : ∀ r ∈ earlier, ¬ StartsWith t r) : FirstOf texts t s := by
  obtain ⟨before, rest, rfl, hbefore, hrest⟩ := List.filter_eq_append_iff.mp h
  obtain ⟨between, behind, rfl, hbetween, -, -⟩ := List.filter_eq_cons_iff.mp hrest
  refine ⟨before ++ between, behind, (List.append_assoc ..).symm, fun r hr hne => ?_⟩
  rcases List.mem_append.mp hr with hr | hr
  · refine hearlier r ?_
    rw [← hbefore, List.mem_filter]
    simpa [hr] using hne
  · exact absurd (by simpa using hne) (hbetween r hr)

theorem mem_filter_nonempty : s ∈ texts.filter (!·.isEmpty) ↔ s ∈ texts ∧ s ≠ [] := by
  rw [List.mem_filter, Bool.not_eq_true', List.isEmpty_eq_false_iff]

/-- A gap of strings is compiled to alternatives that spell those of them that are not empty. -/
theorem exists_compile_choices [Interpreter] {datum : Datum} {first : List Char}
    {more : List (List Char)}
    (hdatum : Value.ofDatum datum = .ok (.choices texts))
    (hfilter : texts.filter (!·.isEmpty) = first :: more)
    (hquotes : ∀ s ∈ texts, ¬ List.replicate repeatLimit '"' <:+: s) :
    ∃ expr exprs, compile (.text oneGap) [datum] = .ok [(['r'], Expr.anyOf expr exprs)] ∧
      List.Forall₂ Spelled (expr :: exprs) (first :: more) := by
  have hgood : ∀ s ∈ first :: more, s ≠ [] ∧ ¬ List.replicate repeatLimit '"' <:+: s := by
    intro s hs
    rw [← hfilter, mem_filter_nonempty] at hs
    exact ⟨hs.2, hquotes s hs.1⟩
  obtain ⟨body, r, hbody, hr, hspelled⟩ := exists_alternation hgood (depthLimit - 2)
  have hblank : Blanks [' '] := .cons (.blank (by decide)) .nil
  have hgroup : Derives .alternation (.group body) (Rendered.choicesToAbnf texts) := by
    have := (Derives.group hblank hbody hblank).once.single.only
    rw [Rendered.choicesToAbnf, hfilter]
    simpa using this
  -- the parentheses are one level of the depth that is left to the body of a rule
  have hexpr : (Phrase.group body).expr? {} (depthLimit - 1) = some (Expr.anyOf r.1 r.2) := by
    have hdepth : depthLimit - 1 = depthLimit - 2 + 1 := by
      have : 8 ≤ depthLimit := Interpreter.room_for_groups
      omega
    rw [hdepth, Phrase.expr?_group_succ, Phrase.expr?, hr]
    rfl
  exact ⟨r.1, r.2, compile_oneGap_of_derives hdatum rfl hgroup hexpr, hspelled⟩

/-- Strings in a gap, in the order in which they are to be tried. -/
theorem exists_chooses [Interpreter] {datum : Datum}
    (hdatum : Value.ofDatum datum = .ok (.choices texts))
    (hne : ∃ s ∈ texts, s ≠ [])
    (hquotes : ∀ s ∈ texts, ¬ List.replicate repeatLimit '"' <:+: s) :
    ∃ expr pattern, compile (.text oneGap) [datum] = .ok [(['r'], expr)] ∧
      Pattern.compile expr.source = .ok pattern ∧ Chooses pattern texts (FirstOf texts) := by
  obtain ⟨first, more, hfilter⟩ : ∃ first more, texts.filter (!·.isEmpty) = first :: more := by
    obtain ⟨s, hs⟩ := hne
    exact List.exists_cons_of_ne_nil (List.ne_nil_of_mem (mem_filter_nonempty.mpr hs))
  obtain ⟨expr, exprs, hcompile, hspelled⟩ := exists_compile_choices hdatum hfilter hquotes
  obtain ⟨pattern, hpattern, hnode⟩ := Spelled.exists_pattern hspelled
  obtain ⟨hfull, hstarts, htaken⟩ := Spelled.chooses hspelled hnode
  -- what holds of the strings that are not empty is said of all, with the empty ones left out
  refine ⟨_, _, hcompile, hpattern, ?_, ?_, ?_⟩
  · intro t
    rw [hfull, ← hfilter]
    simp only [mem_filter_nonempty, and_assoc]
  · intro t
    rw [hstarts, ← hfilter]
    simp only [mem_filter_nonempty, and_assoc]
  · intro t found hfound
    obtain ⟨earlier, s, later, htexts, hearlier, hstart, hfound⟩ := htaken t found hfound
    have hmem : s ∈ texts.filter (!·.isEmpty) := by
      rw [hfilter, htexts]
      exact List.mem_append_right _ List.mem_cons_self
    have hs := mem_filter_nonempty.mp hmem
    refine ⟨s, hs.1, hs.2, hstart, ?_, hfound⟩
    exact firstOf_of_filter (hfilter.trans htexts) hearlier

/-- **The longest comes first** in the order in which the members of a set are tried. -/
theorem FirstOf.longest (h : FirstOf (Value.sorted texts) t s) : LongestOf texts t s := by
  obtain ⟨earlier, later, hsorted, hearlier⟩ := h
  intro r hr hstarts
  by_cases hempty : r = []
  · rw [hempty]
    exact Nat.zero_le _
  · have hmem : r ∈ earlier ++ s :: later := hsorted ▸ Value.mem_sorted.mpr hr
    have hpairwise := Value.pairwise_sorted texts
    rw [hsorted, List.pairwise_append, List.pairwise_cons] at hpairwise
    -- a string before the first cannot be meant, and one behind it is no longer
    rcases List.mem_append.mp hmem with hbefore | hbehind
    · exact absurd hstarts (hearlier r hbefore hempty)
    · rcases List.mem_cons.mp hbehind with rfl | hbehind
      · exact Nat.le_refl _
      · exact hpairwise.2.1.1 r hbehind

theorem Chooses.of_sorted {pattern : Pattern}
    (h : Chooses pattern (Value.sorted texts) (FirstOf (Value.sorted texts))) :
    Chooses pattern texts (LongestOf texts) where
  full t := by simpa only [Value.mem_sorted] using h.full t
  starts t := by simpa only [Value.mem_sorted] using h.starts t
  taken t found hfound := by
    obtain ⟨s, hs, hne, hstarts, hfirst, hwhole⟩ := h.taken t found hfound
    exact ⟨s, Value.mem_sorted.mp hs, hne, hstarts, hfirst.longest, hwhole⟩

/--
A rule that is nothing but strings to choose from, of which one at least is not empty. It matches
the texts that are one of the strings, up to the case of the letters of ASCII. From the start of a
text it takes the first of the strings that the text starts with if they are given in order, and the
longest if they are given as a set. Listing the set in another order leaves the rule as it is.
-/
theorem compile_oneGap_choices [Interpreter] (hne : ∃ s ∈ texts, s ≠ [])
    (hquotes : ∀ s ∈ texts, ¬ List.replicate repeatLimit '"' <:+: s) :
    (∀ datum ∈ [Datum.list (texts.map .text), Datum.tuple (texts.map .text)],
      ∃ rules expression pattern, compile (.text oneGap) [datum] = .ok rules ∧
        rules.sources = [(['r'], expression)] ∧ Pattern.compile expression = .ok pattern ∧
          Chooses pattern texts (FirstOf texts)) ∧
    ∃ rules expression pattern, compile (.text oneGap) [.set (texts.map .text)] = .ok rules ∧
      rules.sources = [(['r'], expression)] ∧ Pattern.compile expression = .ok pattern ∧
        Chooses pattern texts (LongestOf texts) ∧
          ∀ others : List (List Char), (∀ s, s ∈ others ↔ s ∈ texts) →
            compile (.text oneGap) [.set (others.map .text)] = .ok rules := by
  constructor
  · intro datum hdatum
    have hvalue : Value.ofDatum datum = .ok (.choices texts) := by
      rw [List.mem_pair] at hdatum
      rcases hdatum with rfl | rfl
      · exact Value.ofDatum_list texts
      · exact Value.ofDatum_tuple texts
    obtain ⟨expr, pattern, hcompile, hpattern, hchooses⟩ := exists_chooses hvalue hne hquotes
    exact ⟨_, _, pattern, hcompile, rfl, hpattern, hchooses⟩
  · have hne' : ∃ s ∈ Value.sorted texts, s ≠ [] := by simpa only [Value.mem_sorted] using hne
    have hquotes' : ∀ s ∈ Value.sorted texts, ¬ List.replicate repeatLimit '"' <:+: s := by
      simpa only [Value.mem_sorted] using hquotes
    obtain ⟨expr, pattern, hcompile, hpattern, hchooses⟩ :=
      exists_chooses (Value.ofDatum_set texts) hne' hquotes'
    refine ⟨_, _, pattern, hcompile, rfl, hpattern, hchooses.of_sorted, fun others hothers => ?_⟩
    -- the value is the same, and with it everything that is made of it
    have hvalue := Value.ofDatum_set others
    rw [Value.sorted_eq hothers] at hvalue
    rw [compile_oneGap hvalue, ← compile_oneGap (Value.ofDatum_set texts), hcompile]

/-- A string that another one starts with, and an empty one. -/
theorem compile_oneGap_choices_prefix :
    (∃ s ∈ [['a'], ['a', 'B'], []], s ≠ []) ∧
      (∀ s ∈ [['a'], ['a', 'B'], []], ¬ List.replicate repeatLimit '"' <:+: s) ∧
      (∃ rules expression pattern,
        compile (.text oneGap) [.list ([['a'], ['a', 'B'], []].map .text)] = .ok rules ∧
          rules.sources = [(['r'], expression)] ∧ Pattern.compile expression = .ok pattern ∧
            Chooses pattern [['a'], ['a', 'B'], []] (FirstOf [['a'], ['a', 'B'], []])) ∧
      ∃ rules expression pattern,
        compile (.text oneGap) [.set ([['a'], ['a', 'B'], []].map .text)] = .ok rules ∧
          rules.sources = [(['r'], expression)] ∧ Pattern.compile expression = .ok pattern ∧
            Chooses pattern [['a'], ['a', 'B'], []] (LongestOf [['a'], ['a', 'B'], []]) := by
  have hne : ∃ s ∈ [['a'], ['a', 'B'], []], s ≠ [] := ⟨['a'], List.mem_cons_self, nofun⟩
  have hquotes : ∀ s ∈ [['a'], ['a', 'B'], []], ¬ List.replicate repeatLimit '"' <:+: s := by
    have hshort : ∀ s ∈ [['a'], ['a', 'B'], []], s.length < repeatLimit := by decide
    intro s hs hrun
    have hlength := hrun.length_le
    rw [List.length_replicate] at hlength
    exact absurd hlength (Nat.not_le.mpr (hshort s hs))
  obtain ⟨hlist, rules, expression, pattern, hcompile, hsources, hpattern, hchooses, -⟩ :=
    compile_oneGap_choices hne hquotes
  exact ⟨hne, hquotes, hlist _ List.mem_cons_self, rules, expression, pattern, hcompile, hsources,
    hpattern, hchooses⟩

end Abnf
