import Abnf.Proofs.Grammar.Caseless
import Abnf.Proofs.Template.Strings

/-!
# Sources that differ in case

Changing the case of letters of a source, wherever they stand, changes nothing that a caller sees of
its compilation (`compile_sameLetter`).

Two such sources are one text in lower case. They have the same margin and the same gaps, and what
fills the gaps is the same for both; so what is assembled from them is again one text in lower case,
and a grammar is read in lower case as it is read as written.
-/

namespace Abnf

open Grammar Text

namespace Template

/-! ## Templates in lower case -/

/-- A template in lower case. -/
def lowerCase (t : Template) : Template := ⟨Text.lowerCase t.head, t.tail.map Text.lowerCase⟩

theorem cut_lowerCase (s : List Char) : cut (Text.lowerCase s) = (cut s).lowerCase := by
  fun_induction cut s with
  | case1 s rest ih =>
    change (⟨[], (cut (Text.lowerCase s)).head :: (cut (Text.lowerCase s)).tail⟩ : Template) = _
    rw [ih]
    rfl
  | case2 c s hgap rest ih =>
    rw [Text.lowerCase_cons, cut.eq_2, ih]
    · rfl
    · intro u hopen hclose
      obtain ⟨v, rfl, -⟩ := exists_of_lowerCase_eq_cons (by decide) hclose
      exact hgap v ((asciiLower_eq_iff (by decide)).mp hopen) rfl
  | case3 => rfl

theorem ofText_lowerCase (s : List Char) : ofText (Text.lowerCase s) = (ofText s).lowerCase := by
  rw [ofText, dedent_lowerCase, cut_lowerCase, ofText]

namespace Rendered

variable {r r' : Rendered} {after after' : List Char}

/-- A template as far as it has been filled, in lower case. -/
def lowerCase (r : Rendered) : Rendered := { r with text := Text.lowerCase r.text }

theorem lowerCase_eq_iff : r.lowerCase = r'.lowerCase ↔
    Text.lowerCase r.text = Text.lowerCase r'.text ∧ r.placeholders = r'.placeholders := by
  cases r
  cases r'
  simp [lowerCase]

/-- Whether a space stands at the end can be seen in lower case. -/
theorem getLast?_lowerCase_eq_space (s : List Char) :
    (Text.lowerCase s).getLast? = some ' ' ↔ s.getLast? = some ' ' := by
  have hspace (c : Char) : asciiLower c = ' ' ↔ c = ' ' := asciiLower_eq_iff (by decide)
  rw [Text.lowerCase, List.getLast?_map]
  cases s.getLast? with
  | none => simp
  | some c => simp [hspace]

theorem lowerCase_spaced (before inserted : List Char) :
    Text.lowerCase (spaced before inserted) =
      spaced (Text.lowerCase before) (Text.lowerCase inserted) := by
  have hempty : (Text.lowerCase inserted).isEmpty = inserted.isEmpty := by cases inserted <;> rfl
  have hspace : asciiLower ' ' = ' ' := by decide
  unfold spaced
  simp only [getLast?_lowerCase_eq_space, hempty]
  split
  · rfl
  · split <;> simp [hspace]

/-- Templates that have been filled alike are still one in lower case behind the next gap. -/
theorem fill_congr [Interpreter] (h : r.lowerCase = r'.lowerCase)
    (hafter : Text.lowerCase after = Text.lowerCase after') (datum : Datum) :
    (r.fill datum after).map lowerCase = (r'.fill datum after').map lowerCase := by
  obtain ⟨htext, hplaceholders⟩ := lowerCase_eq_iff.mp h
  unfold fill
  cases Value.ofDatum datum with
  | error fault => rfl
  | ok value =>
    -- what is put in depends on the patterns that have a name so far, but not on the text
    have hsplice := splice_text r r'.text value
    rw [show ({ r with text := r'.text } : Rendered) = r' by rw [hplaceholders]] at hsplice
    simp only [bind, Except.bind, hsplice]
    cases h : r.splice value with
    | error fault => rfl
    | ok taken =>
      have hkeep := text_of_splice h
      simp only [Except.map, pure, Except.pure, lowerCase, hkeep, Text.lowerCase_append,
        lowerCase_spaced, htext, hafter]

theorem fillAll_congr [Interpreter] {afters afters' : List (List Char)}
    (h : r.lowerCase = r'.lowerCase)
    (hafters : afters.map Text.lowerCase = afters'.map Text.lowerCase) (values : List Datum) :
    (r.fillAll (values.zip afters)).map lowerCase =
      (r'.fillAll (values.zip afters')).map lowerCase := by
  -- gap by gap: the texts agree up to case, so what is behind them does
  induction values generalizing r r' afters afters' with
  | nil => exact congrArg Except.ok h
  | cons datum values ih =>
    cases afters with
    | nil =>
      obtain rfl := List.map_eq_nil_iff.mp hafters.symm
      exact congrArg Except.ok h
    | cons after afters =>
      obtain ⟨after', afters', rfl, hafter, hafters⟩ := List.map_eq_cons_iff.mp hafters.symm
      rw [List.zip_cons_cons, List.zip_cons_cons, fillAll_cons, fillAll_cons]
      rcases Except.map_eq_map.mp (fill_congr h hafter.symm datum) with
        ⟨fault, hr, hr'⟩ | ⟨next, next', hr, hr', hnext⟩
      · rw [hr, hr']
        rfl
      · rw [hr, hr']
        exact ih hnext hafters.symm

end Rendered

theorem render_congr [Interpreter] {t t' : Template} (h : t.lowerCase = t'.lowerCase)
    (values : List Datum) :
    (t.render values).map Rendered.lowerCase = (t'.render values).map Rendered.lowerCase := by
  obtain ⟨hhead, htail⟩ := Template.mk.inj h
  have hlength : t.tail.length = t'.tail.length := by simpa using congrArg List.length htail
  have hstart : Rendered.lowerCase { text := t.head } = Rendered.lowerCase { text := t'.head } :=
    Rendered.lowerCase_eq_iff.mpr ⟨hhead, rfl⟩
  unfold render
  rw [hlength]
  split
  · rfl
  · rcases Except.map_eq_map.mp (Rendered.fillAll_congr hstart htail values) with
      ⟨fault, hr, hr'⟩ | ⟨r, r', hr, hr', hfilled⟩
    · rw [hr, hr']
    · rw [hr, hr']
      obtain ⟨htext, hplaceholders⟩ := Rendered.lowerCase_eq_iff.mp hfilled
      refine congrArg Except.ok (Rendered.lowerCase_eq_iff.mpr ⟨?_, hplaceholders⟩)
      exact (strip_lowerCase _).symm.trans (htext ▸ strip_lowerCase _)

end Template

/-! ## Outcomes -/

open Template

/--
Two outcomes are the same to a caller: the same names with the same regular expressions in the same
order, or the same fault with the same message, of a grammar at the same position.
-/
inductive SameOutcome : Except CompileError Rules → Except CompileError Rules → Prop where
  | ok {rules rules' : Rules} : rules.sources = rules'.sources →
    SameOutcome (.ok rules) (.ok rules')
  | template (fault : Template.Fault) :
      SameOutcome (.error (.template fault)) (.error (.template fault))
  | grammar {text text' : List Char} (e : Grammar.Error) : e.message text = e.message text' →
      SameOutcome (.error (.grammar text e)) (.error (.grammar text' e))

theorem Grammar.Error.message_lowerCase (e : Grammar.Error) (text : List Char) :
    e.message (Text.lowerCase text) = e.message text := by
  unfold message
  simp only [Location.ofPosition_lowerCase]

theorem Grammar.Rules.sources_lowerCase (rules : Rules) :
    rules.lowerCase.sources = rules.sources := by
  rw [sources, sources, lowerCase, List.map_map]
  simp only [Function.comp_def, Expr.source_lowerCase]

theorem readRendered_congr [Interpreter] {r r' : Rendered} (h : r.lowerCase = r'.lowerCase) :
    SameOutcome (readRendered r) (readRendered r') := by
  obtain ⟨htext, hplaceholders⟩ := Rendered.lowerCase_eq_iff.mp h
  have hnamed : r'.named = r.named := by rw [Rendered.named, Rendered.named, hplaceholders]
  -- what is given are patterns, which are kept as they are, so it is in lower case already
  let given : Rules := r.named.map fun pair => (pair.1, .foreign pair.2)
  have hgiven : Rules.lowerCase given = given := by
    change List.map _ (r.named.map _) = _
    rw [List.map_map]
    rfl
  have hread (text : List Char) : Grammar.read given (Text.lowerCase text) =
      (Grammar.read given text).map Rules.lowerCase := by rw [← read_lowerCase, hgiven]
  unfold readRendered
  rw [hnamed]
  change SameOutcome ((Grammar.read given r.text).mapError _)
    ((Grammar.read given r'.text).mapError _)
  rcases Except.map_eq_map.mp ((hread r.text).symm.trans (htext ▸ hread r'.text)) with
    ⟨e, hr, hr'⟩ | ⟨rules, rules', hr, hr', hrules⟩
  · rw [hr, hr']
    refine .grammar e ?_
    rw [← e.message_lowerCase, htext, e.message_lowerCase]
  · rw [hr, hr']
    refine .ok ?_
    rw [← rules.sources_lowerCase, hrules, rules'.sources_lowerCase]

/--
Changing the case of letters anywhere in a source changes nothing in what it is compiled to, and
nothing in the fault it is refused with.
-/
theorem compile_sameLetter [Interpreter] {s t : List Char} (h : List.Forall₂ SameLetter s t)
    (values : List Datum) : SameOutcome (compile (.text s) values) (compile (.text t) values) := by
  have htext : lowerCase s = lowerCase t := (mem_inAnyCase_iff.mpr h).symm
  have htemplate : (ofText s).lowerCase = (ofText t).lowerCase := by
    rw [← ofText_lowerCase, ← ofText_lowerCase, htext]
  unfold compile ofDatum
  rcases Except.map_eq_map.mp (render_congr htemplate values) with
    ⟨fault, hr, hr'⟩ | ⟨r, r', hr, hr', hrendered⟩
  · simp only [bind, Except.bind, hr, hr']
    exact .template fault
  · simp only [bind, Except.bind, hr, hr']
    exact readRendered_congr hrendered

theorem compile_sameLetter_gap :
    List.Forall₂ SameLetter "Rule = \x7b\x7d %X4a <b> ; C\n  / Digit".toList
        "rULE = \x7b\x7d %x4A <B> ; c\n  / dIGIT".toList ∧
      SameOutcome (compile (.text "Rule = \x7b\x7d %X4a <b> ; C\n  / Digit".toList) [.text ['"']])
        (compile (.text "rULE = \x7b\x7d %x4A <B> ; c\n  / dIGIT".toList) [.text ['"']]) := by
  have h : List.Forall₂ SameLetter "Rule = \x7b\x7d %X4a <b> ; C\n  / Digit".toList
      "rULE = \x7b\x7d %x4A <B> ; c\n  / dIGIT".toList := by
    refine mem_inAnyCase_iff.mp ?_
    change List.map asciiLower _ = List.map asciiLower _
    decide
  exact ⟨h, compile_sameLetter h _⟩

end Abnf
