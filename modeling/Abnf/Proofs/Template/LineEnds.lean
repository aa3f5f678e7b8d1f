import Abnf.Proofs.Grammar.LineEnds
import Abnf.Proofs.Template.Printable

/-!
# Sources with carriage returns

A source whose lines end in a carriage return and a newline is compiled to the same rules as one
with newlines alone, if blank lines are flush with its margin (`compile_crlf`): what fills the gaps
breaks no line, and the notation takes either line end.

Blank lines that are not flush stand in the way. The margin is taken away line by line, and a blank
line that ends in a carriage return counts as one with content, so an indented source may keep its
indentation (`compile_crlf_blank_line`).
-/

namespace Abnf

open Grammar Token Text

namespace Template

/-! ## Filling gaps -/

namespace Rendered

variable {r next : Rendered} {inserted after : List Char} {value : Value}

/-- What a value is spliced in as breaks no line, and the text stays as it is. -/
theorem unbroken_of_splice [Interpreter] (h : r.splice value = .ok (inserted, next)) :
    Unbroken inserted ∧ next.text = r.text :=
  ⟨unbroken_of_printable (printable_of_splice h), text_of_splice h⟩

/-- A template as far as it has been filled, with carriage returns. -/
protected def crlf (r : Rendered) : Rendered := { r with text := Text.crlf r.text }

theorem splice_crlf [Interpreter] (r : Rendered) (value : Value) :
    r.crlf.splice value = (r.splice value).map fun taken => (taken.1, taken.2.crlf) := by
  rw [Rendered.crlf, splice_text]
  cases h : r.splice value with
  | error fault => rfl
  | ok taken =>
    have htext : taken.2.text = r.text := text_of_splice h
    simp only [Except.map, Rendered.crlf, htext]

theorem getLast?_crlf_eq_space (s : List Char) :
    (Text.crlf s).getLast? = some ' ' ↔ s.getLast? = some ' ' := by
  induction s using List.reverseRecOn with
  | nil => rfl
  | append_singleton init last =>
    rw [crlf_append]
    by_cases hlast : last = '\n'
    · subst hlast
      simp [Text.crlf, crlfChar]
    · simp [Text.crlf, crlfChar_of_ne hlast]

theorem spaced_crlf (before : List Char) (h : Unbroken inserted) :
    spaced (Text.crlf before) inserted = Text.crlf (spaced before inserted) := by
  have hinserted : Text.crlf inserted = inserted := crlf_of_not_mem fun hc => (h _ hc).2 rfl
  unfold spaced
  simp only [getLast?_crlf_eq_space]
  split
  · rfl
  · split
    · rw [crlf_append, crlf_append, hinserted]
      rfl
    · rw [crlf_append, crlf_append, crlf_cons (by decide), hinserted]
      rfl

/-- A gap is filled in the same way with carriage returns. -/
theorem fill_crlf [Interpreter] (r : Rendered) (datum : Datum) (after : List Char) :
    r.crlf.fill datum (Text.crlf after) = (r.fill datum after).map Rendered.crlf := by
  unfold fill
  cases Value.ofDatum datum with
  | error fault => rfl
  | ok value =>
    simp only [bind, Except.bind, splice_crlf]
    cases hsplice : r.splice value with
    | error fault => rfl
    | ok taken =>
      obtain ⟨hinserted, -⟩ := unbroken_of_splice hsplice
      simp only [Except.map, pure, Except.pure, Rendered.crlf, crlf_append,
        spaced_crlf _ hinserted]

theorem return_not_mem_fill [Interpreter] {datum : Datum} (hr : '\r' ∉ r.text)
    (hafter : '\r' ∉ after)
    (h : r.fill datum after = .ok next) : '\r' ∉ next.text := by
  obtain ⟨value, -, h⟩ := Except.bind_eq_ok.mp h
  obtain ⟨⟨inserted, mid⟩, hsplice, h⟩ := Except.bind_eq_ok.mp h
  cases h
  obtain ⟨hinserted, htext⟩ := unbroken_of_splice hsplice
  have hreturn : '\r' ∉ inserted := fun hc => (hinserted _ hc).1 rfl
  have hspaced : '\r' ∉ spaced mid.text inserted := by
    rw [htext, spaced]
    split
    · exact hr
    · split <;> simp [hr, hreturn]
  simp [hspaced, hafter]

theorem fillAll_crlf [Interpreter] (r : Rendered) (pairs : List (Datum × List Char)) :
    r.crlf.fillAll (pairs.map fun pair => (pair.1, Text.crlf pair.2)) =
      (r.fillAll pairs).map Rendered.crlf := by
  induction pairs generalizing r with
  | nil => rfl
  | cons pair pairs ih =>
    obtain ⟨datum, after⟩ := pair
    rw [List.map_cons, fillAll_cons, fillAll_cons, fill_crlf]
    cases r.fill datum after with
    | error fault => rfl
    | ok next => exact ih next

/-- Where no text holds a carriage return, the filled template holds none. -/
theorem return_not_mem_fillAll [Interpreter] {pairs : List (Datum × List Char)} (hr : '\r' ∉ r.text)
    (hpairs : ∀ pair ∈ pairs, '\r' ∉ pair.2) (h : r.fillAll pairs = .ok next) :
    '\r' ∉ next.text := by
  induction pairs generalizing r with
  | nil =>
    cases h
    exact hr
  | cons pair pairs ih =>
    obtain ⟨datum, after⟩ := pair
    rw [List.forall_mem_cons] at hpairs
    rw [fillAll_cons] at h
    obtain ⟨mid, hfill, h⟩ := Except.bind_eq_ok.mp h
    exact ih (return_not_mem_fill hr hpairs.1 hfill) hpairs.2 h

end Rendered

/-- A template with carriage returns. -/
protected def crlf (t : Template) : Template := ⟨Text.crlf t.head, t.tail.map Text.crlf⟩

theorem cut_crlf (s : List Char) : cut (Text.crlf s) = (cut s).crlf := by
  fun_induction cut s with
  | case1 s rest ih =>
    have hcut : cut ('\x7b' :: '\x7d' :: Text.crlf s) =
        ⟨[], (cut (Text.crlf s)).head :: (cut (Text.crlf s)).tail⟩ := rfl
    rw [crlf_cons (by decide), crlf_cons (by decide), hcut, ih]
    rfl
  | case2 c s hgap rest ih =>
    by_cases hc : c = '\n'
    · subst hc
      have hcut : cut ('\r' :: '\n' :: Text.crlf s) =
          ⟨'\r' :: '\n' :: (cut (Text.crlf s)).head, (cut (Text.crlf s)).tail⟩ := rfl
      rw [crlf_newline, hcut, ih]
      rfl
    · -- what follows an opening brace is no closing one, with carriage returns or without
      have hgap' : ∀ cs, c = '\x7b' → Text.crlf s = '\x7d' :: cs → False := by
        intro cs hopen hclose
        cases s with
        | nil => cases hclose
        | cons d s =>
          by_cases hd : d = '\n'
          · subst hd
            cases hclose
          · rw [crlf_cons hd] at hclose
            exact hgap s hopen (by rw [(List.cons.inj hclose).1])
      rw [crlf_cons hc, cut.eq_2 _ _ hgap', ih]
      simp only [Template.crlf, crlf_cons hc, rest]
  | case3 => rfl

theorem render_crlf [Interpreter] (t : Template) (values : List Datum) :
    t.crlf.render values = (t.render values).map Rendered.crlf := by
  have hlength : t.crlf.tail.length = t.tail.length := List.length_map _
  unfold render
  rw [hlength]
  split
  · rfl
  · have hfill := Rendered.fillAll_crlf { text := t.head } (values.zip t.tail)
    have hpairs : values.zip t.crlf.tail =
        (values.zip t.tail).map fun pair => (pair.1, Text.crlf pair.2) := by
      rw [Template.crlf, List.zip_map_right]
      rfl
    have hstart : ({ text := t.crlf.head } : Rendered) = Rendered.crlf { text := t.head } := rfl
    rw [hpairs, hstart, hfill]
    cases Rendered.fillAll { text := t.head } (values.zip t.tail) with
    | error fault => rfl
    | ok r =>
      simp only [bind, Except.bind, Except.map, pure, Except.pure, Rendered.crlf, strip_crlf]

theorem return_not_mem_render [Interpreter] {t : Template} {values : List Datum} {r : Rendered}
    (hhead : '\r' ∉ t.head) (htail : ∀ after ∈ t.tail, '\r' ∉ after)
    (h : t.render values = .ok r) : '\r' ∉ r.text := by
  obtain ⟨filled, hfilled, rfl⟩ := exists_filled h
  have hpairs : ∀ pair ∈ values.zip t.tail, '\r' ∉ pair.2 :=
    fun pair hpair => htail _ (List.of_mem_zip hpair).2
  exact fun hc => Rendered.return_not_mem_fillAll hhead hpairs hfilled (mem_of_mem_strip hc)

end Template

open Template

/--
Where the blank lines of a source are flush with its margin, its lines may end in a newline alone or
in a carriage return and a newline: either both sources are compiled, to the same rules in the same
order, or neither is.
-/
theorem compile_crlf [Interpreter] {s : List Char} (hreturn : '\r' ∉ s)
    (hflush : Flush (splitLines s))
    (values : List Datum) (rules : Rules) :
    compile (.text (crlf s)) values = .ok rules ↔ compile (.text s) values = .ok rules := by
  -- only the source has carriage returns to lose, since nothing that is filled in breaks a line
  have htemplate : ofText (crlf s) = (ofText s).crlf := by
    rw [ofText, ofText, dedent_crlf hflush, cut_crlf]
  have hparts := not_mem_cut fun hc => hreturn (mem_of_mem_dedent hc (by decide))
  have hrender : (ofText (crlf s)).render values =
    ((ofText s).render values).map Rendered.crlf := by
    rw [htemplate, render_crlf]
  unfold compile ofDatum
  simp only [bind, Except.bind, hrender]
  cases hr : (ofText s).render values with
  | error fault => exact Iff.rfl
  | ok r =>
    have htext := return_not_mem_render hparts.1 hparts.2 hr
    change readRendered r.crlf = _ ↔ readRendered r = _
    unfold readRendered
    rw [Except.mapError_eq_ok, Except.mapError_eq_ok]
    exact read_crlf htext

theorem compile_crlf_indented :
    '\r' ∉ "  a = \"x\"\n  \n  b = \x7b\x7d\n    / a".toList ∧
      Flush (splitLines "  a = \"x\"\n  \n  b = \x7b\x7d\n    / a".toList) ∧
      compile (.text (crlf "  a = \"x\"\n  \n  b = \x7b\x7d\n    / a".toList)) [.text ['"']] =
        .ok [(['a'], .literal ['x']),
          (['b'], .grouped (.alt (.core .dquote) (.literal ['x'])))] := by
  have hreturn : '\r' ∉ "  a = \"x\"\n  \n  b = \x7b\x7d\n    / a".toList := by decide
  have hflush : Flush (splitLines "  a = \"x\"\n  \n  b = \x7b\x7d\n    / a".toList) := by decide
  exact ⟨hreturn, hflush, (compile_crlf hreturn hflush _ _).mpr (by decide +kernel)⟩

/--
A blank line that is not flush with the margin: an indented source is compiled with newlines alone,
and refused with carriage returns.
-/
theorem compile_crlf_blank_line :
    '\r' ∉ "    a = \"x\"\n\n    b = \"y\"".toList ∧
      compile (.text "    a = \"x\"\n\n    b = \"y\"".toList) [] =
        .ok [(['a'], .literal ['x']), (['b'], .literal ['y'])] ∧
      ∀ rules, compile (.text (crlf "    a = \"x\"\n\n    b = \"y\"".toList)) [] ≠ .ok rules := by
  refine ⟨by decide, by decide +kernel, fun rules hrules => ?_⟩
  have hrefused : (compile (.text (crlf "    a = \"x\"\n\n    b = \"y\"".toList)) []).toOption =
      none := by decide +kernel
  rw [hrules] at hrefused
  cases hrefused

end Abnf
