import Abnf.Proofs.Grammar.Correctness
import Abnf.Proofs.Grammar.LineEnds

/-!
# Lines behind lines

A grammar with lines added behind it has the rules it had before, under the same names in the same
order, and each of them is what it was unless an added line defines it again
(`compileText_append_line`).

Two things have to be seen. A newline with a letter behind it is the end of a line in every
derivation, because a newline within a rule or within white space has a blank behind it (`Folded`);
there the derivation falls apart into one of the lines before and one of the lines behind
(`Lines.split`). And the earlier lines are assembled on their own once they stand alone, which takes
the white space at their end away; all that can be lost of a derivation is layout and the end of a
comment (`Lines.ended_trimEnd`).
-/

namespace Abnf

namespace Grammar

open Token Text

variable {u v w nl remark cs x y : List Char} {d : Definition} {ds : List Definition} {p : Phrase}

/-! ## Newlines within a line -/

/-- Every newline of a text is there to fold a line: a blank stands behind it. -/
def Folded : List Char → Prop
  | [] => True
  | c :: rest => (c = '\n' → ∃ d ∈ rest.head?, isBlank d) ∧ Folded rest

theorem Folded.append (hu : Folded u) (hv : Folded v) : Folded (u ++ v) := by
  induction u with
  | nil => exact hv
  | cons c u ih =>
    refine ⟨fun hc => ?_, ih hu.2⟩
    obtain ⟨d, hd, hblank⟩ := hu.1 hc
    exact ⟨d, List.mem_head?_append_of_mem_head? hd, hblank⟩

theorem Folded.behind (h : Folded (u ++ '\n' :: v)) : ∃ c ∈ v.head?, isBlank c := by
  induction u with
  | nil => exact h.1 rfl
  | cons c u ih => exact ih h.2

theorem folded_of_not_mem (h : '\n' ∉ u) : Folded u := by
  induction u with
  | nil => trivial
  | cons c u ih =>
    rw [List.mem_cons, not_or] at h
    exact ⟨fun hc => absurd hc.symm h.1, ih h.2⟩

theorem Unbroken.folded (h : Unbroken u) : Folded u :=
  folded_of_not_mem fun hmem => (h _ hmem).2 rfl

theorem Remark.newline_not_mem (h : Remark remark) : '\n' ∉ remark := by
  cases h with
  | nothing => exact List.not_mem_nil
  | comment htext =>
    rw [List.mem_cons, not_or]
    exact ⟨by decide, fun hmem => not_isCommentChar_newline (htext _ hmem)⟩

/-- A line end is a newline and something with none before it. -/
theorem LineEnd.exists_before (h : LineEnd nl) :
    ∃ before, '\n' ∉ before ∧ nl = before ++ ['\n'] := by
  obtain ⟨hr, hb⟩ := h
  have hremark := hr.newline_not_mem
  cases hb with
  | lf => exact ⟨_, hremark, rfl⟩
  | crlf => exact ⟨_ ++ ['\r'], by simpa using hremark, by simp⟩

theorem Blank.folded_text (h : Blank u) : Folded u := by
  cases h with
  | blank hc => exact Unbroken.folded (List.forall_mem_singleton.mpr (ne_of_isBlank hc))
  | @folded nl c hnl hc =>
    obtain ⟨before, hbefore, rfl⟩ := hnl.exists_before
    rw [List.append_assoc]
    refine (folded_of_not_mem hbefore).append ⟨fun _ => ⟨c, rfl, hc⟩, ?_⟩
    exact folded_of_not_mem (by simpa using Ne.symm (ne_of_isBlank hc).2)

theorem Blanks.folded (h : Blanks w) : Folded w := by
  induction h with
  | nil => trivial
  | cons hb _ ih => exact hb.folded_text.append ih

/-- A phrase goes on over a line end only if a blank follows. -/
theorem Derives.folded {n : Nonterminal} (h : Derives n p u) : Folded u := by
  -- newlines stand in the white space between tokens alone, and there they are folded
  have hcons {c : Char} {u : List Char} (hc : c ≠ '\n') (h : Folded u) : Folded (c :: u) :=
    ⟨fun hn => absurd hn hc, h⟩
  have hprintable {text : List Char} (h : ∀ c ∈ text, IsPrintable c) : Folded text :=
    (unbroken_of_printable h).folded
  induction h with
  | reference hname => exact (unbroken_of_not_isSpace hname.not_isSpace).folded
  | group hv _ hw ih | option hv _ hw ih =>
    refine hcons (by decide) (hv.folded.append (ih.append (hw.folded.append ?_)))
    exact hcons (by decide) trivial
  | quoted htext =>
    have hchars := hprintable fun c hc => isPrintable_of_isQuotedChar (htext c hc)
    exact hcons (by decide) (hchars.append (hcons (by decide) trivial))
  | prose htext =>
    have hchars := hprintable fun c hc => isPrintable_of_isProseChar (htext c hc)
    exact hcons (by decide) (hchars.append (hcons (by decide) trivial))
  | codes hnumbers => exact hcons (by decide) (unbroken_of_not_isSpace hnumbers.not_isSpace).folded
  | once _ ih | single _ ih | only _ ih => exact ih
  | times hbounds _ ih => exact hbounds.unbroken.folded.append ih
  | seq _ hb hw _ ihp ihq => exact ihp.append (hb.folded_text.append (hw.folded.append ihq))
  | alt _ hw hx _ ihp ihq =>
    exact ihp.append (hw.folded.append (hcons (by decide) (hx.folded.append ihq)))

theorem RuleText.folded (h : RuleText d u) : Folded u := by
  obtain ⟨hname, hv, hw, hp, hx⟩ := h
  have hsign := d.unbroken_sign.folded
  have hname := (unbroken_of_not_isSpace hname.not_isSpace).folded
  have hbody := hw.folded.append (hp.folded.append hx.folded)
  exact hname.append (hv.folded.append (hsign.append hbody))

/-! ## Where lines fall apart -/

/--
A newline that no blank follows, in a text that starts with a line: it ends that line, or it stands
among the lines behind it.
-/
theorem LineEnd.split (hnl : LineEnd nl) (hu : Folded u) (hy : ∀ c ∈ y.head?, ¬ isBlank c)
    (h : u ++ (nl ++ cs) = x ++ '\n' :: y) :
    (x ++ ['\n'] = u ++ nl ∧ y = cs) ∨ ∃ z, x = u ++ (nl ++ z) ∧ cs = z ++ '\n' :: y := by
  obtain ⟨before, hbefore, rfl⟩ := hnl.exists_before
  have hline : Folded (u ++ before) := hu.append (folded_of_not_mem hbefore)
  have h : (u ++ before) ++ ('\n' :: cs) = x ++ '\n' :: y := by simpa using h
  rcases List.append_eq_append_iff.mp h with ⟨z, hx, hcs⟩ | ⟨z, hx, hcs⟩
  · cases z with
    | nil =>
      obtain ⟨-, rfl⟩ := List.cons.inj hcs
      exact .inl ⟨by rw [hx]; simp, rfl⟩
    | cons c z =>
      obtain ⟨rfl, rfl⟩ := List.cons.inj hcs
      exact .inr ⟨z, by rw [hx]; simp, rfl⟩
  · cases z with
    | nil =>
      obtain ⟨-, rfl⟩ := List.cons.inj hcs
      exact .inl ⟨by rw [List.append_nil] at hx; rw [← hx]; simp, rfl⟩
    | cons c z =>
      -- a newline within the line has a blank behind it
      obtain ⟨rfl, rfl⟩ := List.cons.inj hcs
      rw [hx] at hline
      obtain ⟨c, hc, hblank⟩ := hline.behind
      exact absurd hblank (hy c (List.mem_head?_append_of_mem_head? hc))

/-- Lines fall apart at a newline that no blank follows. -/
theorem Lines.split (h : Lines ds cs) (hcs : cs = x ++ '\n' :: y)
    (hy : ∀ c ∈ y.head?, ¬ isBlank c) :
    ∃ ds₁ ds₂, ds = ds₁ ++ ds₂ ∧ Lines ds₁ (x ++ ['\n']) ∧ Lines ds₂ y := by
  -- the newline ends the first line, or it is further on
  induction h generalizing x with
  | nil => simp at hcs
  | @rule d ds u nl cs hu hnl hlines ih =>
    rcases hnl.split hu.folded hy hcs with ⟨hx, rfl⟩ | ⟨z, rfl, hz⟩
    · refine ⟨[d], ds, rfl, ?_, hlines⟩
      rw [hx, ← List.append_nil nl]
      exact .rule hu hnl .nil
    · obtain ⟨ds₁, ds₂, rfl, hfirst, hsecond⟩ := ih hz
      refine ⟨d :: ds₁, ds₂, rfl, ?_, hsecond⟩
      simpa using Lines.rule hu hnl hfirst
  | @blank ds w nl cs hw hnl hlines ih =>
    rcases hnl.split hw.folded hy hcs with ⟨hx, rfl⟩ | ⟨z, rfl, hz⟩
    · refine ⟨[], ds, rfl, ?_, hlines⟩
      rw [hx, ← List.append_nil nl]
      exact .blank hw hnl .nil
    · obtain ⟨ds₁, ds₂, rfl, hfirst, hsecond⟩ := ih hz
      refine ⟨ds₁, ds₂, rfl, ?_, hsecond⟩
      simpa using Lines.blank hw hnl hfirst

/-- Lines behind lines are lines. -/
theorem Lines.append {es : List Definition} (hx : Lines ds x) (hy : Lines es y) :
    Lines (ds ++ es) (x ++ y) := by
  induction hx with
  | nil => exact hy
  | rule hu hnl _ ih => simpa using Lines.rule hu hnl ih
  | blank hw hnl _ ih => simpa using Lines.blank hw hnl ih

/-! ## Lines without the white space at their end -/

theorem Remark.trimEnd (h : Remark remark) : Remark (trimEnd remark) := by
  have hprefix : Text.trimEnd remark <+: remark := List.rdropWhile_prefix _ _
  cases h with
  | nothing => exact .nothing
  | comment htext =>
    generalize Text.trimEnd _ = trimmed at hprefix
    cases trimmed with
    | nil => exact .nothing
    | cons c trimmed =>
      obtain ⟨rfl, htrimmed⟩ := List.cons_prefix_cons.mp hprefix
      exact .comment fun c hc => htext c (htrimmed.mem hc)

/-- A comment is no white space. -/
theorem Remark.eq_nil (h : Remark remark) (hspace : ∀ c ∈ remark, isSpace c) : remark = [] := by
  cases h with
  | nothing => rfl
  | comment => exact absurd (hspace ';' List.mem_cons_self) (by decide)

theorem isSpace_of_isBlank {c : Char} (h : isBlank c) : isSpace c := by
  rcases eq_of_isBlank h with rfl | rfl <;> decide

theorem LineBreak.isSpace (h : LineBreak nl) : ∀ c ∈ nl, isSpace c := by
  cases h <;> exact List.all_eq_true.mp (by decide)

/-- All that is left of white space is white space, and the start of a comment. -/
theorem Blanks.trimEnd (h : Blanks w) :
    ∃ w' remark, Blanks w' ∧ Remark remark ∧ trimEnd w = w' ++ remark := by
  induction h with
  | nil => exact ⟨[], [], .nil, .nothing, rfl⟩
  | @cons b w hb _ ih =>
    -- from the end: blanks that are all white space go, up to a comment, which stays
    by_cases hw : ∀ c ∈ w, Text.isSpace c
    · refine ⟨[], Text.trimEnd b, .nil, ?_, trimEnd_append_of_space hw⟩
      have hspace {c : Char} (hc : isBlank c) : ∀ d ∈ [c], Text.isSpace d :=
        List.forall_mem_singleton.mpr (isSpace_of_isBlank hc)
      cases hb with
      | blank hc =>
        rw [trimEnd_eq_nil (hspace hc)]
        exact .nothing
      | folded hnl hc =>
        obtain ⟨hr, hbreak⟩ := hnl
        rw [trimEnd_append_of_space (hspace hc), trimEnd_append_of_space hbreak.isSpace]
        exact hr.trimEnd
    · obtain ⟨w', remark, hw', hr, heq⟩ := ih
      exact ⟨b ++ w', remark, .cons hb hw', hr, by rw [trimEnd_append hw, heq, List.append_assoc]⟩

/-- All that a rule can lose is layout and the end of a comment. -/
theorem RuleText.trimEnd (h : RuleText d u) :
    ∃ u' remark, RuleText d u' ∧ Remark remark ∧ trimEnd u = u' ++ remark := by
  obtain ⟨hname, hv, hw, hp, hx⟩ := h
  rename_i u v w x
  have hcore : ∀ {x : List Char}, d.name ++ (v ++ (d.sign ++ (w ++ (u ++ x)))) =
      (d.name ++ (v ++ (d.sign ++ (w ++ u)))) ++ x := by simp
  by_cases hspace : ∀ c ∈ x, Text.isSpace c
  · -- nothing stands behind the body, and no body ends in white space
    refine ⟨_, [], .mk hname hv hw hp .nil, .nothing, ?_⟩
    have hlast : ∀ c ∈ (d.name ++ (v ++ (d.sign ++ (w ++ u)))).getLast?, ¬ Text.isSpace c := by
      obtain ⟨c, tail, rfl, -⟩ := hp.head
      have hlast := hp.not_isSpace_getLast?
      simpa [List.getLast?_append] using hlast
    rw [hcore, trimEnd_append_of_space hspace, trimEnd_eq_self hlast]
    simp
  · obtain ⟨x', remark, hx', hr, heq⟩ := hx.trimEnd
    refine ⟨_, remark, .mk hname hv hw hp hx', hr, ?_⟩
    rw [hcore, trimEnd_append hspace, heq]
    simp

/-- A line that nothing but white space follows, with a comment or without. -/
theorem exists_trimEnd_line {P : List Char → Prop}
    (hu : ∃ u' remark, P u' ∧ Remark remark ∧ trimEnd u = u' ++ remark) (hP : P u)
    (hnl : LineEnd nl) (hcs : ∀ c ∈ cs, isSpace c) :
    ∃ u' remark, P u' ∧ Remark remark ∧ trimEnd (u ++ (nl ++ cs)) = u' ++ remark := by
  obtain ⟨hr, hb⟩ := hnl
  rename_i remark nl
  have hspace : ∀ c ∈ nl ++ cs, isSpace c := List.forall_mem_append.mpr ⟨hb.isSpace, hcs⟩
  have hline : u ++ ((remark ++ nl) ++ cs) = (u ++ remark) ++ (nl ++ cs) := by simp
  rw [hline, trimEnd_append_of_space hspace]
  by_cases hremark : ∀ c ∈ remark, isSpace c
  · rw [trimEnd_append_of_space hremark]
    exact hu
  · exact ⟨u, _, hP, hr.trimEnd, trimEnd_append hremark⟩

theorem Lines.eq_nil_of_space (h : Lines ds cs) (hcs : ∀ c ∈ cs, isSpace c) : ds = [] := by
  induction h with
  | nil => rfl
  | rule hu _ _ _ =>
    obtain ⟨hname, -⟩ := hu
    obtain ⟨c, tail, hhead, -⟩ := hname.head
    have hmem : c ∈ _ := hhead ▸ List.mem_cons_self
    exact absurd (hcs c (by simp [hmem])) (hname.not_isSpace c hmem)
  | blank _ _ _ ih => exact ih fun c hc => hcs c (by simp [hc])

/-- Lines without the white space at their end are the lines of the same rules. -/
theorem Lines.ended_trimEnd (h : Lines ds cs) : Ended ds (trimEnd cs) := by
  -- the last line that is left is the first one with nothing but white space behind it
  induction h with
  | nil => exact .blank .nil .nothing
  | @rule d ds u nl cs hu hnl hlines ih =>
    by_cases hcs : ∀ c ∈ cs, isSpace c
    · obtain rfl := hlines.eq_nil_of_space hcs
      obtain ⟨u', remark, hu', hr, heq⟩ := exists_trimEnd_line hu.trimEnd hu hnl hcs
      rw [heq]
      exact .rule hu' hr
    · -- something is left behind this line, so the line itself is untouched
      rw [← List.append_assoc, trimEnd_append hcs, List.append_assoc]
      exact .ruleLine hu hnl ih
  | @blank ds w nl cs hw hnl hlines ih =>
    by_cases hcs : ∀ c ∈ cs, isSpace c
    · obtain rfl := hlines.eq_nil_of_space hcs
      obtain ⟨w', remark, hw', hr, heq⟩ := exists_trimEnd_line hw.trimEnd hw hnl hcs
      rw [heq]
      exact .blank hw' hr
    · rw [← List.append_assoc, trimEnd_append hcs, List.append_assoc]
      exact .blankLine hw hnl ih

/-! ## Rules of earlier lines -/

theorem startsFull_of_isLetter {s : List Char} (h : ∃ c ∈ s.head?, isLetter c) : StartsFull s := by
  obtain ⟨c, hc, hletter⟩ := h
  exact ⟨c, hc, not_isSpace_of_isLetter hletter⟩

/--
A text that is read, with lines behind it that start with no white space, falls apart: the earlier
lines are read on their own, and the later ones add their rules to those.
-/
theorem exists_read_of_append [Interpreter] {rules : Rules}
    (h : read [] (x ++ '\n' :: y) = .ok rules)
    (hy : StartsFull y) (hlast : ∀ c ∈ y.getLast?, ¬ isSpace c) :
    ∃ earlier : Scope, read [] (trimEnd x) = .ok earlier.defined ∧ (∃ ds, Lines ds (y ++ ['\n'])) ∧
      ∀ ds, Lines ds (y ++ ['\n']) →
        ∃ later, earlier.addAll? ds = some later ∧ later.defined = rules := by
  obtain ⟨ds, scope, hended, hadd, rfl⟩ := read_eq_ok.mp h
  have htext : (x ++ '\n' :: y) ++ ['\n'] = x ++ '\n' :: (y ++ ['\n']) := by simp
  have hhead : ∀ c ∈ (y ++ ['\n']).head?, ¬ isBlank c := fun c hc hblank =>
    (hy.append _).not_isSpace c hc (isSpace_of_isBlank hblank)
  obtain ⟨ds₁, ds₂, rfl, hfirst, hsecond⟩ := hended.lines.split htext hhead
  rw [Scope.addAll?_append] at hadd
  obtain ⟨earlier, hearlier, -⟩ := Option.bind_eq_some_iff.mp hadd
  have hended₁ : Ended ds₁ (trimEnd x) := by
    have := hfirst.ended_trimEnd
    rwa [trimEnd_append_of_space (List.forall_mem_singleton.mpr (by decide))] at this
  refine ⟨earlier, read_eq_ok.mpr ⟨ds₁, earlier, hended₁, hearlier, rfl⟩, ⟨ds₂, hsecond⟩, ?_⟩
  intro es hes
  -- any derivation of the later lines completes the one of the earlier lines
  have hboth : Lines (ds₁ ++ es) ((x ++ '\n' :: y) ++ ['\n']) := by
    simpa using hfirst.append hes
  have hreturn : (x ++ '\n' :: y).getLast? ≠ some '\r' := by
    obtain ⟨c, hc, -⟩ := hy
    have hne : y ≠ [] := List.ne_nil_of_mem (List.mem_of_mem_head? hc)
    rw [List.append_cons, List.getLast?_append_of_ne_nil _ hne]
    exact fun hr => hlast _ hr (by decide)
  obtain ⟨later, hlater, hrules⟩ :=
    (read_eq_ok_iff_of_ended (hboth.ended rfl hreturn)).mp h
  rw [Scope.addAll?_append, hearlier, Option.bind_some] at hlater
  exact ⟨later, hlater, hrules⟩

theorem Rules.lookup_sources (rules : Rules) (name : Name) :
    rules.sources.lookup name = (rules.find? name).map Expr.source := by
  induction rules with
  | nil => rfl
  | cons rule rules ih =>
    have hsources : sources (rule :: rules) = (rule.1, rule.2.source) :: sources rules := rfl
    rw [hsources, List.lookup_cons, Rules.find?_cons, ih]
    by_cases hname : name = rule.1
    · rw [beq_iff_eq.mpr hname, if_pos hname]
      rfl
    · rw [beq_eq_false_iff_ne.mpr hname, if_neg hname]

end Grammar

open Grammar Token Text

/--
Lines that are added behind a grammar leave it what it was: if the whole is compiled, then so are
the earlier lines alone; their rules come first, in the same order, and every rule that no added
line defines is the same expression in both.
-/
theorem compileText_append_line [Interpreter] {s t : List Char} {rules : Rules}
    (hs : ∃ c ∈ s.head?, isLetter c)
    (ht : ∃ c ∈ t.head?, isLetter c) (h : compileText (s ++ '\n' :: t) = .ok rules) :
    ∃ earlier, compileText s = .ok earlier ∧ earlier.names <+: rules.names ∧
      (∃ ds, RuleList ds (strip (dedent t) ++ ['\n'])) ∧
        ∀ ds, RuleList ds (strip (dedent t) ++ ['\n']) →
          ∀ name, (∀ d ∈ ds, d.key ≠ name) →
            rules.sources.lookup name = earlier.sources.lookup name := by
  have hs := startsFull_of_isLetter hs
  have ht := startsFull_of_isLetter ht
  have hgaps := tail_eq_nil_of_compileText h
  rw [compileText_eq hgaps, strip_dedent_append hs ht] at h
  have hgaps' : (Template.ofText s).tail = [] := by
    rw [Template.ofText, dedent_append hs ht] at hgaps
    exact Template.tail_cut_of_append hgaps
  -- the two texts are read one behind the other, as their lines begin with a letter
  have hstrip := strip_eq_trimEnd (startsFull_dedent hs).not_isSpace
  have hstart : StartsFull (strip (dedent t)) := by
    rw [strip_eq_trimEnd (startsFull_dedent ht).not_isSpace]
    exact (startsFull_dedent ht).trimEnd
  obtain ⟨earlier, hread, ⟨ds, hds⟩, hlater⟩ :=
    exists_read_of_append (Except.mapError_eq_ok.mp h) hstart (getLast?_strip _)
  refine ⟨earlier.defined, ?_, ?_, ⟨ds, by simp, hds⟩, fun ds hds name hname => ?_⟩
  · rw [compileText_eq hgaps', hstrip, hread]
    rfl
  · obtain ⟨later, hadd, rfl⟩ := hlater ds hds
    rw [Scope.names_addAll? hadd]
    exact prefix_foldl_addName _ _
  · obtain ⟨later, hadd, rfl⟩ := hlater ds hds.2
    rw [Rules.lookup_sources, Rules.lookup_sources, Scope.find?_addAll? hadd hname]

theorem compileText_append_line_extended :
    (∃ c ∈ "a = \"x\"\nb = 2a ; twice\n".toList.head?, isLetter c) ∧
      (∃ c ∈ "A =/ \"y\"\n  ".toList.head?, isLetter c) ∧
      compileText ("a = \"x\"\nb = 2a ; twice\n".toList ++ '\n' :: "A =/ \"y\"\n  ".toList) =
        .ok [(['a'], .grouped (.alt (.literal ['x']) (.literal ['y']))),
          (['b'], .repeated (.exactly 2) (.literal ['x']))] ∧
      ∃ earlier, compileText "a = \"x\"\nb = 2a ; twice\n".toList = .ok earlier ∧
        earlier.names <+: [['a'], ['b']] := by
  have hs : ∃ c ∈ "a = \"x\"\nb = 2a ; twice\n".toList.head?, isLetter c := ⟨'a', rfl, by decide⟩
  have ht : ∃ c ∈ "A =/ \"y\"\n  ".toList.head?, isLetter c := ⟨'A', rfl, by decide⟩
  have h : compileText ("a = \"x\"\nb = 2a ; twice\n".toList ++ '\n' :: "A =/ \"y\"\n  ".toList) =
      .ok [(['a'], .grouped (.alt (.literal ['x']) (.literal ['y']))),
        (['b'], .repeated (.exactly 2) (.literal ['x']))] := by decide +kernel
  obtain ⟨earlier, hearlier, hnames, -⟩ := compileText_append_line hs ht h
  exact ⟨hs, ht, h, earlier, hearlier, hnames⟩

end Abnf
