import Abnf.Compile
import Abnf.Proofs.Grammar.Limits

/-!
# Which texts are compiled

A source without gaps is compiled exactly if the text that is assembled from it is a grammar by the
notation, its rules are legal in their order, and it keeps to the limits. A text that keeps to the
limits and is not compiled is refused at a position of it. The two are stated together in
`compileText_decides`.

The assembled text has no white space at its ends, and so no last line end; that is why the notation
is asked about the text and a newline.
-/

namespace Abnf

open Grammar

variable {source text cs : List Char} {ds : List Definition}

/-! ## Cutting at the gaps -/

theorem Template.head_cut (h : (Template.cut cs).tail = []) : (Template.cut cs).head = cs := by
  fun_induction Template.cut cs with
  | case1 => cases h
  | case2 c cs _ _ ih => rw [ih h]
  | case3 => rfl

/-- A text without gaps has none at its start. -/
theorem Template.tail_cut_of_append {s t : List Char} (h : (Template.cut (s ++ t)).tail = []) :
    (Template.cut s).tail = [] := by
  fun_induction Template.cut s with
  | case1 s rest ih => cases h
  | case2 c s hgap rest ih =>
    by_cases hclose : c = '\x7b' ∧ ∃ cs, s ++ t = '\x7d' :: cs
    · obtain ⟨rfl, cs, hcs⟩ := hclose
      rw [List.cons_append, hcs] at h
      cases h
    · refine ih ?_
      rw [List.cons_append, Template.cut.eq_2 _ _ fun cs hc hcs => hclose ⟨hc, cs, hcs⟩] at h
      exact h
  | case3 => rfl

theorem Template.cut_of_not_mem {s : List Char} (h : '\x7b' ∉ s) : Template.cut s = ⟨s, []⟩ := by
  fun_induction Template.cut s with
  | case1 => simp at h
  | case2 c cs _ rest ih =>
    have hrest : rest = ⟨cs, []⟩ := ih fun hc => h (List.mem_cons_of_mem c hc)
    rw [hrest]
  | case3 => rfl

/-- Every part of a template is a part of its text. -/
theorem Template.not_mem_cut {c : Char} {s : List Char} (hs : c ∉ s) :
    c ∉ (Template.cut s).head ∧ ∀ after ∈ (Template.cut s).tail, c ∉ after := by
  fun_induction Template.cut s with
  | case1 s rest ih =>
    simp only [List.mem_cons, not_or] at hs
    exact ⟨List.not_mem_nil, List.forall_mem_cons.mpr (ih hs.2.2)⟩
  | case2 d s hgap rest ih =>
    rw [List.mem_cons, not_or] at hs
    refine ⟨?_, (ih hs.2).2⟩
    rw [List.mem_cons, not_or]
    exact ⟨hs.1, (ih hs.2).1⟩
  | case3 => exact ⟨List.not_mem_nil, List.forall_mem_nil _⟩

/-! ## Stripped texts -/

theorem getLast?_strip (text : List Char) : ∀ c ∈ (Text.strip text).getLast?, ¬ Text.isSpace c := by
  intro c hc
  rw [Text.strip, List.getLast?_reverse, Option.mem_def] at hc
  have := List.head?_dropWhile_not Text.isSpace (text.dropWhile Text.isSpace).reverse
  rw [hc] at this
  simpa using this

/-- No carriage return is left at the end of a stripped text. -/
theorem getLast?_strip_ne_return (text : List Char) : (Text.strip text).getLast? ≠ some '\r' :=
  fun hc => getLast?_strip text '\r' hc (by decide)

/-- A text without a last line end is a grammar if it is one with a newline behind it. -/
theorem exists_ended_iff (htext : text.getLast? ≠ some '\r') :
    Ended ds text ↔ RuleList ds (text ++ ['\n']) := by
  constructor
  · intro h
    exact ⟨by simp, h.lines⟩
  · intro h
    exact h.2.ended rfl htext

section

variable [Interpreter]

/--
Without gaps, the text to read is the source without its margin and the white space around it.
-/
theorem compileText_eq (h : (Template.ofText source).tail = []) :
    compileText source = (read [] (Text.strip (Text.dedent source))).mapError
      (.grammar (Text.strip (Text.dedent source))) := by
  have hrender : (Template.ofText source).render [] =
      .ok { text := Text.strip (Text.dedent source) } := by
    unfold Template.render
    rw [h, show (Template.ofText source).head = Text.dedent source from Template.head_cut h]
    rfl
  change ((Template.ofText source).render []).mapError .template >>= readRendered = _
  rw [hrender]
  rfl

/-! ## Grammars -/

theorem addAll?_isSome_iff_nil (ds : List Definition) :
    (({} : Scope).addAll? ds).isSome ↔
      LegalRules [] ds ∧ ∀ d ∈ ds, d.body.nesting < depthLimit ∧ d.body.Fits :=
  Scope.addAll?_isSome_iff rfl (by simp [Rules.find?]) ds

/-- A text is read exactly if its rules are legal and it keeps to the limits. -/
theorem exists_read_iff : (∃ rules, read [] text = .ok rules) ↔
    WithinLimits text ∧ ∃ ds, Ended ds text ∧ LegalRules [] ds := by
  simp only [read_eq_ok]
  constructor
  · rintro ⟨_, ds, scope, hds, hscope, -⟩
    have hsome := (addAll?_isSome_iff_nil ds).mp (Option.isSome_of_mem hscope)
    exact ⟨hds.withinLimits_iff.mpr hsome.2, ds, hds, hsome.1⟩
  · rintro ⟨hlimits, ds, hds, hlegal⟩
    have hsome := (addAll?_isSome_iff_nil ds).mpr ⟨hlegal, hds.withinLimits_iff.mp hlimits⟩
    obtain ⟨scope, hscope⟩ := Option.isSome_iff_exists.mp hsome
    exact ⟨_, ds, scope, hds, hscope, rfl⟩

/--
Which sources without gaps are compiled: those whose text keeps to the limits and is empty or, with
a newline behind it, a list of legal rules. If the text keeps to the limits, any other source is
refused with a fault at a position of the text.
-/
theorem compileText_decides (h : (Template.ofText source).tail = []) :
    ((∃ rules, compileText source = .ok rules) ↔
      WithinLimits (Text.strip (Text.dedent source)) ∧
        (Text.strip (Text.dedent source) = [] ∨
          ∃ ds, RuleList ds (Text.strip (Text.dedent source) ++ ['\n']) ∧ LegalRules [] ds)) ∧
      ∀ e, compileText source = .error e → ∃ fault,
        e = .grammar (Text.strip (Text.dedent source)) fault ∧
          (WithinLimits (Text.strip (Text.dedent source)) → fault.position?.isSome) := by
  -- no white space ends the text that is read, so a newline behind it ends the last rule
  have hlast := getLast?_strip_ne_return (Text.dedent source)
  rw [compileText_eq h]
  generalize Text.strip (Text.dedent source) = text at hlast
  refine ⟨?_, fun e he => ?_⟩
  · simp only [Except.mapError_eq_ok, exists_read_iff, exists_ended_iff hlast]
    refine and_congr_right fun _ => ⟨.inr, ?_⟩
    rintro (rfl | hds)
    · exact ⟨[], ⟨nofun, .blank .nil (.mk .nothing .lf) .nil⟩, trivial⟩
    · exact hds
  · obtain ⟨fault, hfault, rfl⟩ := Except.mapError_eq_error.mp he
    exact ⟨fault, rfl, position?_isSome hfault⟩

end

theorem compileText_decides_reference :
    (Template.ofText ['a', '=', 'b']).tail = [] ∧
      ((∃ rules, compileText ['a', '=', 'b'] = .ok rules) ↔ WithinLimits ['a', '=', 'b'] ∧
        (['a', '=', 'b'] = [] ∨
          ∃ ds, RuleList ds (['a', '=', 'b'] ++ ['\n']) ∧ LegalRules [] ds)) := by
  have hgaps : (Template.ofText ['a', '=', 'b']).tail = [] := by decide
  have htext : Text.strip (Text.dedent ['a', '=', 'b']) = ['a', '=', 'b'] := by decide
  have h := (compileText_decides hgaps).1
  rw [htext] at h
  exact ⟨hgaps, h⟩

end Abnf
