import Abnf.Proofs.Grammar.Correctness
import Abnf.Proofs.Grammar.Expansion
import Abnf.Proofs.Text.Assembled
import Mathlib.Data.List.Chain

/-!
# A reference is its definition in parentheses

A source that is assembled already is the text that is read, so that a piece of it can be put in
another place. Here the alternation of a rule is put in parentheses and in the place of a later
reference to the rule, and what is compiled is the same, name by name (`compileText_expanded`).

One thing is asked of the new source: its groups may not be nested too deeply. They may be without
that being so of the source before (`not_compiled_expanded`), as the parentheses nest what was not
nested.
-/

namespace Abnf

open Grammar Token Text

variable {rules : Rules} {s t u v : List Char}

/-! ## Gaps -/

/-- Two characters that are no gap. -/
def NoGap (c d : Char) : Prop := ¬ (c = '\x7b' ∧ d = '\x7d')

/-- A text without gaps, character by character. -/
theorem Template.tail_cut_eq_nil_iff : (Template.cut s).tail = [] ↔ s.IsChain NoGap := by
  -- the cut is at the first two braces, and without them it goes on to the end
  fun_induction Template.cut s with
  | case1 s rest ih =>
    refine iff_of_false (List.cons_ne_nil _ _) fun h => ?_
    rw [List.isChain_cons_cons] at h
    exact h.1 ⟨rfl, rfl⟩
  | case2 c s hgap rest ih =>
    refine ih.trans ⟨fun h => h.cons fun d hd => ?_, fun h => h.tail⟩
    rintro ⟨rfl, rfl⟩
    obtain ⟨s, rfl⟩ : ∃ tail, s = '\x7d' :: tail := by
      cases s with
      | nil => cases hd
      | cons d s =>
        cases hd
        exact ⟨s, rfl⟩
    exact hgap s rfl rfl
  | case3 => exact iff_of_true rfl .nil

/-- A piece of text between two others that could be no part of a gap. -/
structure Braceless (s : List Char) : Prop where
  ne_nil : s ≠ []
  not_mem_open : '\x7b' ∉ s
  not_mem_close : '\x7d' ∉ s

/-- On either side of such a piece there may be gaps, but none across. -/
theorem Braceless.isChain_append (hv : Braceless v) :
    (s ++ (v ++ t)).IsChain NoGap ↔ s.IsChain NoGap ∧ t.IsChain NoGap := by
  have hhead : ∀ c ∈ s.getLast?, ∀ d ∈ (v ++ t).head?, NoGap c d := by
    rintro c - d hd ⟨-, rfl⟩
    rw [List.head?_append_of_ne_nil _ hv.ne_nil] at hd
    exact hv.not_mem_close (List.mem_of_mem_head? hd)
  have hlast : ∀ c ∈ v.getLast?, ∀ d ∈ t.head?, NoGap c d := by
    rintro c hc d - ⟨rfl, -⟩
    exact hv.not_mem_open (List.mem_of_mem_getLast? hc)
  have hinside : v.IsChain NoGap := by
    refine List.Pairwise.isChain (List.pairwise_of_forall_mem_list ?_)
    rintro c hc d - ⟨rfl, -⟩
    exact hv.not_mem_open hc
  rw [List.isChain_append, List.isChain_append]
  exact ⟨fun h => ⟨h.1, h.2.1.2.1⟩, fun h => ⟨h.1, ⟨hinside, h.2, hlast⟩, hhead⟩⟩

/-! ## Sources that are assembled already -/

/-- A source that is assembled already and has no gaps is read as it is. -/
theorem compileText_eq_ok_iff [Interpreter] (htext : strip (dedent s) = s)
    (hgaps : s.IsChain NoGap) :
    compileText s = .ok rules ↔ read [] s = .ok rules := by
  have htail : (Template.ofText s).tail = [] := by
    rw [Template.ofText, dedent_eq_self htext]
    exact Template.tail_cut_eq_nil_iff.mpr hgaps
  rw [compileText_eq htail, htext]
  exact Except.mapError_eq_ok

theorem isChain_of_compileText [Interpreter] (htext : strip (dedent s) = s)
    (h : compileText s = .ok rules) :
    s.IsChain NoGap := by
  have htail := tail_eq_nil_of_compileText h
  rw [Template.ofText, dedent_eq_self htext] at htail
  exact Template.tail_cut_eq_nil_iff.mp htail

namespace Grammar.Citation

variable {c : Citation}

theorem ahead_ne_nil : c.ahead ≠ [] :=
  List.append_ne_nil_of_left_ne_nil c.opening_front.ne_nil _

/-- The alternation stands in the text before the reference. -/
theorem source_eq : c.source = c.front ++
    (c.alternation ++
    (c.lineEnd ++ (c.middle ++ (c.left ++ (c.name ++ (c.right ++ c.back)))))) := by
  simp [source, textWith, ahead]

theorem assembled_expanded (h : strip (dedent c.source) = c.source) :
    strip (dedent c.expanded) = c.expanded := by
  have hopen : Solid ['(', ' '] := ⟨by decide, by decide⟩
  have hclose : Solid [' ', ')'] := ⟨by decide, by decide⟩
  have hspliced := strip_dedent_spliced ahead_ne_nil hopen hclose (by simp; decide) h source_eq
  simpa [expanded, textWith] using hspliced

theorem isChain_expanded (h : c.source.IsChain NoGap) : c.expanded.IsChain NoGap := by
  have hopen : Braceless ['(', ' '] := ⟨List.cons_ne_nil _ _, by decide, by decide⟩
  have hclose : Braceless [' ', ')'] := ⟨List.cons_ne_nil _ _, by decide, by decide⟩
  have hpiece : c.alternation.IsChain NoGap := by
    rw [source_eq] at h
    exact h.right_of_append.left_of_append
  have hspliced : (c.ahead ++ (['(', ' '] ++ (c.alternation ++ ([' ', ')'] ++
      (c.right ++ c.back))))).IsChain NoGap := by
    rw [hopen.isChain_append, hclose.isChain_append]
    exact ⟨h.left_of_append, hpiece, h.right_of_append.right_of_append⟩
  simpa [expanded, textWith] using hspliced

end Grammar.Citation

/--
The alternation of a rule in parentheses, in the place of a later reference to the rule, in a source
that is assembled already. If the rule was not defined before and neither it nor anything its
alternation mentions is defined between, and the new source does not nest groups too deeply, then it
is compiled to the same rules.
-/
theorem compileText_expanded [Interpreter] (c : Citation)
    (htext : strip (dedent c.source) = c.source)
    (h : compileText c.source = .ok rules) (hadds : c.cited.adds = false)
    (hname : keyOf c.name = c.cited.key) (honce : ∀ d ∈ c.before ++ c.between, d.key ≠ c.cited.key)
    (hagain : ∀ d ∈ c.between, d.key ∉ c.cited.body.mentioned)
    (hnesting : nestingFrom 0 (marks c.expanded) < depthLimit) :
    compileText c.expanded = .ok rules := by
  have hgaps := isChain_of_compileText htext h
  rw [compileText_eq_ok_iff htext hgaps] at h
  rw [compileText_eq_ok_iff (Citation.assembled_expanded htext) (Citation.isChain_expanded hgaps)]
  have hended := c.ended c.derives_group
  obtain ⟨scope, hadd, rfl⟩ :=
    (read_eq_ok_iff_of_ended (c.ended (.reference c.ruleName_name))).mp h
  refine (read_eq_ok_iff_of_ended hended).mpr ⟨scope, ?_, rfl⟩
  -- the limit on nesting is a limit on the bodies, which is what resolving them asks for
  have hbodies : ∀ d ∈ c.definitionsWith (.group c.cited.body), d.body.nesting < depthLimit := by
    have hmarks := hended.marks_eq
    rw [← nestingFrom_rules, ← hmarks]
    exact hnesting
  refine c.addAll?_expanded hadds hname honce hagain ?_ hadd
  exact hbodies { c.citing with body := c.fill (.group c.cited.body) }
    (by simp [Citation.definitionsWith])

/-- A rule of two alternatives over two lines, and a repeated reference to it. -/
def Grammar.Citation.twice : Citation where
  before := []
  cited := ⟨['a'], false, .alt (.quoted ['x']) (.quoted ['y'])⟩
  between := []
  citing := ⟨['b'], false, .times (.exact ['2']) (.reference ['A'])⟩
  after := []
  name := ['A']
  fill := fun p => .times (.exact ['2']) p
  front := ['a', ' ', '=', ' ']
  body := ['"', 'x', '"', ' ', ';', 'z', '\n', ' ', '/', ' ', '"', 'y', '"']
  blanks := [' ']
  lineEnd := ['\n']
  middle := ['b', ' ', '=', ' ']
  left := ['2']
  right := []
  back := []
  opening_front := by
    have hname : RuleName ['a'] := .letter (by decide)
    have hspace : Blanks [' '] := .cons (.blank rfl) .nil
    exact .mk (v := [' ']) (w := [' ']) .nil hname hspace hspace
  derives_body := by
    have hcomment : LineEnd [';', 'z', '\n'] :=
      .mk (@Remark.comment ['z'] (List.forall_mem_singleton.mpr rfl)) .lf
    have hblanks : Blanks [' ', ';', 'z', '\n', ' '] :=
      .cons (b := [' ']) (.blank rfl) (.cons (.folded hcomment rfl) .nil)
    have hquoted {c : Char} (hc : isQuotedChar c) :
        Derives .concatenation (.quoted [c]) ['"', c, '"'] :=
      .single (.once (.quoted (by simpa using hc)))
    exact .alt (hquoted (by decide)) hblanks (.cons (.blank rfl) .nil) (.only (hquoted (by decide)))
  blanks_blanks := .cons (.blank rfl) .nil
  lineEnd_lineEnd := .mk .nothing .lf
  opening_middle := by
    have hname : RuleName ['b'] := .letter (by decide)
    have hspace : Blanks [' '] := .cons (.blank rfl) .nil
    exact .mk (v := [' ']) (w := [' ']) .nil hname hspace hspace
  hole := .only (.single (.times (v := ['2']) (.exact (.digit (by decide))) .here))
  citing_body := rfl
  ruleName_name := .letter (by decide)
  behind_back := .last .nil .nothing

theorem compileText_expanded_twice :
    Citation.twice.source = "a = \"x\" ;z\n / \"y\" \nb = 2A".toList ∧
      Citation.twice.expanded =
        "a = \"x\" ;z\n / \"y\" \nb = 2( \"x\" ;z\n / \"y\"  )".toList ∧
      compileText Citation.twice.expanded =
        .ok [(['a'], .grouped (.alt (.literal ['x']) (.literal ['y']))),
          (['b'], .repeated (.exactly 2) (.grouped (.alt (.literal ['x']) (.literal ['y']))))] := by
  have hsource : Citation.twice.source = "a = \"x\" ;z\n / \"y\" \nb = 2A".toList := by
    decide +kernel
  have htext : strip (dedent Citation.twice.source) = Citation.twice.source := by decide +kernel
  have hcompile : compileText Citation.twice.source =
      .ok [(['a'], .grouped (.alt (.literal ['x']) (.literal ['y']))),
        (['b'], .repeated (.exactly 2) (.grouped (.alt (.literal ['x']) (.literal ['y']))))] := by
    decide +kernel
  have hnesting : nestingFrom 0 (marks Citation.twice.expanded) < depthLimit := by decide +kernel
  refine ⟨hsource, by decide +kernel, ?_⟩
  exact compileText_expanded .twice htext hcompile rfl rfl (List.forall_mem_nil _)
    (List.forall_mem_nil _) hnesting

/-! ## Parentheses that nest too deeply -/

namespace Grammar

/-- An element in so many parentheses. -/
theorem hole_parentheses (n : Nat) :
    Hole .alternation Phrase.group^[n] (List.replicate n '(') (List.replicate n ')') := by
  induction n with
  | zero => exact .only (.single (.once .here))
  | succ n ih =>
    have hgroup := Hole.group .nil ih .nil
    rw [Function.iterate_succ', List.replicate_succ, List.replicate_succ']
    exact .only (.single (.once hgroup))

theorem Phrase.nesting_parentheses (n : Nat) (p : Phrase) :
    (Phrase.group^[n] p).nesting = p.nesting + n := by
  induction n with
  | zero => rfl
  | succ n ih => rw [Function.iterate_succ_apply', nesting, ih, Nat.add_assoc]

theorem Phrase.fits_parentheses {p : Phrase} (h : p.Fits) (n : Nat) :
    (Phrase.group^[n] p).Fits := by
  induction n with
  | zero => exact h
  | succ n ih => rwa [Function.iterate_succ_apply', Fits]

theorem Phrase.legal_parentheses {defined : Name → Prop} {p : Phrase} (h : p.Legal defined)
    (n : Nat) : (Phrase.group^[n] p).Legal defined := by
  induction n with
  | zero => exact h
  | succ n ih => rwa [Function.iterate_succ_apply', Legal]

/-- The empty string in so many parentheses, and a reference to it in as many. -/
def Citation.nested (n : Nat) : Citation where
  before := []
  cited := ⟨['a'], false, Phrase.group^[n] (.quoted [])⟩
  between := []
  citing := ⟨['b'], false, Phrase.group^[n] (.reference ['a'])⟩
  after := []
  name := ['a']
  fill := Phrase.group^[n]
  front := ['a', '=']
  body := List.replicate n '(' ++ (['"', '"'] ++ List.replicate n ')')
  blanks := []
  lineEnd := ['\n']
  middle := ['b', '=']
  left := List.replicate n '('
  right := List.replicate n ')'
  back := []
  opening_front := by
    have hname : RuleName ['a'] := .letter (by decide)
    exact .mk (v := []) (w := []) .nil hname .nil .nil
  derives_body := (hole_parentheses n).derives (@Derives.quoted [] (List.forall_mem_nil _))
  blanks_blanks := .nil
  lineEnd_lineEnd := .mk .nothing .lf
  opening_middle := by
    have hname : RuleName ['b'] := .letter (by decide)
    exact .mk (v := []) (w := []) .nil hname .nil .nil
  hole := hole_parentheses n
  citing_body := rfl
  ruleName_name := .letter (by decide)
  behind_back := .last .nil .nothing

theorem Citation.source_nested (n : Nat) : (nested n).source =
    ['a', '='] ++ (List.replicate n '(' ++ (['"', '"'] ++ (List.replicate n ')' ++
      (['\n', 'b', '='] ++ (List.replicate n '(' ++ (['a'] ++ List.replicate n ')')))))) := by
  simp [source_eq, nested, alternation]

/-- Each of the two rules alone keeps to the limit. -/
theorem Citation.exists_read_nested [Interpreter] {n : Nat} (hn : n < depthLimit) :
    ∃ rules, read [] (nested n).source = .ok rules := by
  have hended := (nested n).ended (.reference (nested n).ruleName_name)
  have hfits (p : Phrase) (h : p.Fits) : (Phrase.group^[n] p).Fits := Phrase.fits_parentheses h n
  have hlegal (defined : Name → Prop) (p : Phrase) (h : p.Legal defined) :
      (Phrase.group^[n] p).Legal defined := Phrase.legal_parentheses h n
  have hnesting (p : Phrase) (h : p.nesting = 0) : (Phrase.group^[n] p).nesting < depthLimit := by
    rw [Phrase.nesting_parentheses, h, Nat.zero_add]
    exact hn
  refine exists_read_iff.mpr ⟨hended.withinLimits_iff.mpr ?_, _, hended, ?_⟩
  · exact List.forall_mem_cons.mpr ⟨⟨hnesting _ rfl, hfits _ trivial⟩,
      List.forall_mem_singleton.mpr ⟨hnesting _ rfl, hfits _ trivial⟩⟩
  · have hadds {P : Prop} (h : false = true) : P := absurd h Bool.false_ne_true
    exact ⟨rfl, hadds, hlegal _ _ trivial, rfl, hadds, hlegal _ _ (.inr List.mem_cons_self),
      trivial⟩

/-- With the one in the place of the reference to it the parentheses add up. -/
theorem Citation.not_read_expanded [Interpreter] {n : Nat} (hn : depthLimit ≤ n + 1 + n) :
    ¬ ∃ rules, read [] (nested n).expanded = .ok rules := by
  rw [exists_read_iff]
  rintro ⟨hlimits, -⟩
  have hended := (nested n).ended (nested n).derives_group
  have hbodies := hended.withinLimits_iff.mp hlimits
  have hciting := (hbodies ⟨['b'], false, Phrase.group^[n] (.group (Phrase.group^[n] (.quoted [])))⟩
    (.tail _ (.head _))).1
  simp only [Phrase.nesting_parentheses, Phrase.nesting] at hciting
  omega

end Grammar

/--
A source that is compiled, but is nested too deeply to be compiled once the alternation is in the
place of the reference: the parentheses of both add up.
-/
theorem not_compiled_expanded : ∃ (c : Citation) (s : List Char),
    s = ['a', '='] ++ (List.replicate 200 '(' ++ (['"', '"'] ++ (List.replicate 200 ')' ++
      (['\n', 'b', '='] ++ (List.replicate 200 '(' ++ (['a'] ++ List.replicate 200 ')')))))) ∧
      c.source = s ∧ strip (dedent c.source) = c.source ∧ c.cited.adds = false ∧
      keyOf c.name = c.cited.key ∧
      (∀ d ∈ c.before ++ c.between ++ c.citing :: c.after, d.key ≠ c.cited.key) ∧
      (∀ d ∈ c.between, d.key ∉ c.cited.body.mentioned) ∧
      (∃ rules, compileText c.source = .ok rules) ∧
      ¬ ∃ rules, compileText c.expanded = .ok rules := by
  have htext : strip (dedent (Citation.nested 200).source) = (Citation.nested 200).source := by
    decide +kernel
  have hgaps : (Citation.nested 200).source.IsChain NoGap :=
    Template.tail_cut_eq_nil_iff.mp (by decide +kernel)
  refine ⟨.nested 200, _, rfl, Citation.source_nested 200, htext, rfl, rfl, ?_,
    List.forall_mem_nil _, ?_, ?_⟩
  · exact List.forall_mem_singleton.mpr (by decide)
  · obtain ⟨rules, hrules⟩ := Citation.exists_read_nested (n := 200) (by decide)
    exact ⟨rules, (compileText_eq_ok_iff htext hgaps).mpr hrules⟩
  · rintro ⟨rules, hrules⟩
    have htext' := Citation.assembled_expanded htext
    have hgaps' := Citation.isChain_expanded hgaps
    exact Citation.not_read_expanded (n := 200) (by decide)
      ⟨rules, (compileText_eq_ok_iff htext' hgaps').mp hrules⟩

end Abnf
