import Abnf.Compile
import Abnf.Proofs.Grammar.Lines
import Abnf.Proofs.Text.Margin

/-!
# Filling the gaps of a rule

What a template becomes when its gaps are filled, gap by gap, and what a text is read as that holds
one rule. A template of one rule and one gap is the smallest case: its text is the grammar text of
the value behind the name and the sign of the rule (`compile_gap`).
-/

namespace Abnf

open Grammar Token

/-! ## The text of one rule -/

/-- A text of one rule, as a template with gaps in its body leaves it. -/
theorem ended_rule {p : Phrase} {u : List Char} (hp : Derives .alternation p u) :
    Ended [⟨['r'], false, p⟩] ('r' :: ' ' :: '=' :: ' ' :: u) := by
  have hblank : Blanks ([' '] ++ []) := .cons (.blank (by decide)) .nil
  have hrule : RuleText ⟨['r'], false, p⟩ ('r' :: ' ' :: '=' :: ' ' :: u) := by
    have := RuleText.mk (d := ⟨['r'], false, p⟩) (.mk (by decide) nofun) hblank hblank hp .nil
    simpa [Definition.sign] using this
  have := Ended.rule hrule .nothing
  rwa [List.append_nil] at this

/-- White space and one space more at the end of a text are no part of it. -/
theorem Text.strip_append_space {text : List Char} (hhead : ∀ c ∈ text.head?, ¬ isSpace c)
    (hlast : ∀ c ∈ text.getLast?, ¬ isSpace c) : strip (text ++ [' ']) = text := by
  have hspace : ∀ c ∈ [' '], isSpace c := List.forall_mem_singleton.mpr (by decide)
  cases text with
  | nil => rfl
  | cons c text =>
    have hhead' : ∀ d ∈ (c :: text ++ [' ']).head?, ¬ isSpace d := hhead
    rw [strip_eq_trimEnd hhead', trimEnd_append_of_space hspace, trimEnd_eq_self hlast]

/-- A name, as the body of a rule. -/
theorem derives_name {name : List Char} (h : RuleName name) :
    Derives .alternation (.reference name) name :=
  .only (.single (.once (.reference h)))

/-- The template of a rule that is nothing but a gap. -/
def oneGap : List Char := "r = \x7b\x7d".toList

namespace Template

theorem ofText_oneGap : ofText oneGap = ⟨['r', ' ', '=', ' '], [[]]⟩ := by decide

/-- The names of the first two patterns. -/
theorem ruleName_placeholders : RuleName "placeholder-rule-0".toList ∧
    RuleName "placeholder-rule-1".toList :=
  ⟨.mk (by decide) (List.all_eq_true.mp (by decide)),
    .mk (by decide) (List.all_eq_true.mp (by decide))⟩

end Template

variable [Interpreter]

/-! ## Reading one rule -/

/-- A text of one rule is read as what its body stands for. -/
theorem read_rule {given : Rules} {p : Phrase} {u : List Char} {expr : Expr}
    (hp : Derives .alternation p u) (hname : given.find? ['r'] = none)
    (hexpr : p.expr? { given := given } (depthLimit - 1) = some expr) :
    read given ('r' :: ' ' :: '=' :: ' ' :: u) = .ok [(['r'], expr)] := by
  refine (read_eq_ok_iff_of_ended (ended_rule hp)).mpr
    ⟨{ given := given, defined := [(['r'], expr)] }, ?_, rfl⟩
  have hkey : Definition.key ⟨['r'], false, p⟩ = ['r'] := rfl
  have hreserved : Scope.isReserved { given := given } ['r'] = false := by
    simp only [Scope.isReserved, hname, Option.isSome_none, Bool.or_false]
    decide
  rw [Scope.addAll?, Scope.add?, hkey, hreserved]
  simp only [Bool.false_eq_true, if_false, hexpr, Option.map_some, Option.bind_some, Scope.addAll?]
  rfl

/-- What is read of a template of one rule, with patterns under names. -/
theorem readRendered_eq {r : Template.Rendered} {named : List (List Char × List Char)} {p : Phrase}
    {u : List Char} {expr : Expr} (hp : Derives .alternation p u)
    (htext : r.text = 'r' :: ' ' :: '=' :: ' ' :: u) (hnamed : r.named = named)
    (hname : Rules.find? (named.map fun (name, source) => (name, .foreign source)) ['r'] = none)
    (hexpr : p.expr? { given := named.map fun (name, source) => (name, .foreign source) }
      (depthLimit - 1) = some expr) : readRendered r = .ok [(['r'], expr)] := by
  rw [readRendered, htext, hnamed, read_rule hp hname hexpr]
  rfl

namespace Template

/-! ## Filling gaps in order -/

variable {r : Rendered} {p : PatternValue} {wrapped : List Char}

/-- A pattern that has no name yet is given the next one. -/
theorem nameOf_new {n : Nat} (hnew : r.number? p.identity = none)
    (hcount : r.placeholders.length = n) (h : inline p.pattern = .ok wrapped) :
    r.nameOf p = .ok (placeholderName n,
      { r with placeholders := r.placeholders ++ [⟨p.identity, wrapped⟩] }) := by
  rw [Rendered.nameOf, hnew, h, ← hcount]
  rfl

/-- A pattern that has a name keeps it. -/
theorem nameOf_known {n : Nat} (hknown : r.number? p.identity = some n) :
    r.nameOf p = .ok (placeholderName n, r) := by
  rw [Rendered.nameOf, hknown]

/-- What a value is spliced in as, and which names are given, does not depend on the text. -/
theorem splice_text (r : Rendered) (text : List Char) (value : Value) :
    Rendered.splice { r with text := text } value =
      (r.splice value).map fun taken => (taken.1, { taken.2 with text := text }) := by
  cases value with
  | text | choices => rfl
  | pattern p =>
    have hnumber : Rendered.number? { r with text := text } p.identity = r.number? p.identity := rfl
    change Rendered.nameOf { r with text := text } p = (r.nameOf p).map _
    rw [Rendered.nameOf, Rendered.nameOf, hnumber]
    cases r.number? p.identity with
    | some n => rfl
    | none => cases inline p.pattern <;> rfl

theorem text_of_splice {value : Value} {inserted : List Char} {next : Rendered}
    (h : r.splice value = .ok (inserted, next)) : next.text = r.text := by
  have htext := splice_text r r.text value
  rw [h] at htext
  exact congrArg (·.2.text) (Except.ok.inj htext)

theorem fillAll_cons (r : Rendered) (datum : Datum) (after : List Char)
    (rest : List (Datum × List Char)) :
    r.fillAll ((datum, after) :: rest) = r.fill datum after >>= (·.fillAll rest) := rfl

theorem render_eq (t : Template) (values : List Datum) (h : t.tail.length = values.length) :
    t.render values = (do
      let r ← Rendered.fillAll { text := t.head } (values.zip t.tail)
      return { r with text := Text.strip r.text }) := by
  rw [render, if_neg (not_not_intro h)]

theorem length_eq_of_render {t : Template} {values : List Datum} (h : t.render values = .ok r) :
    t.tail.length = values.length := by
  rw [render] at h
  split at h
  · cases h
  · rename_i hlength
    exact Decidable.not_not.mp hlength

/-- A template that can be filled is filled gap by gap, and then stripped. -/
theorem exists_filled {t : Template} {values : List Datum} (h : t.render values = .ok r) :
    ∃ filled, Rendered.fillAll { text := t.head } (values.zip t.tail) = .ok filled ∧
      r = { filled with text := Text.strip filled.text } := by
  rw [render] at h
  split at h
  · cases h
  · obtain ⟨filled, hfilled, h⟩ := Except.bind_eq_ok.mp h
    cases h
    exact ⟨filled, hfilled, rfl⟩

end Template

open Template

/-! ## A rule of one gap -/

/-- The gap is filled with the grammar text of the value. -/
theorem compile_oneGap {datum : Datum} {value : Value} (h : Value.ofDatum datum = .ok value) :
    compile (.text oneGap) [datum] =
      (Rendered.splice { text := ['r', ' ', '=', ' '] } value).mapError .template >>= fun taken =>
        readRendered
          { taken.2 with text := Text.strip (Rendered.spaced taken.2.text taken.1) } := by
  rw [compile, ofDatum, ofText_oneGap]
  simp only [bind, Except.bind, render_eq ⟨_, [_]⟩ [_] rfl, List.zip_cons_cons, fillAll_cons,
    Rendered.fill, h, List.append_nil, pure, Except.pure]
  cases Rendered.splice _ value with
  | error fault => rfl
  | ok taken => rfl

/-- A pattern in the gap is all that the rule stands for. -/
theorem compile_oneGap_pattern (p : PatternValue) : compile (.text oneGap) [.pattern p] =
    (Template.inline p.pattern).mapError .template >>= fun wrapped =>
      .ok [(['r'], .foreign wrapped)] := by
  rw [compile_oneGap rfl, Rendered.splice]
  cases hinline : Template.inline p.pattern with
  | error fault =>
    rw [Rendered.nameOf, hinline]
    rfl
  | ok wrapped =>
    have hread : readRendered
        { text := "r = placeholder-rule-0".toList, placeholders := [⟨p.identity, wrapped⟩] } =
        .ok [(['r'], .foreign wrapped)] :=
      readRendered_eq (derives_name ruleName_placeholders.1) rfl rfl rfl rfl
    rw [nameOf_new (n := 0) rfl rfl hinline]
    exact hread

/-- A pattern that is accepted alone can be put in parentheses. -/
theorem inline_of_compile_oneGap {p : PatternValue}
    (h : ∃ rules, compile (.text oneGap) [.pattern p] = .ok rules) :
    ∃ wrapped, Template.inline p.pattern = .ok wrapped := by
  obtain ⟨rules, h⟩ := h
  rw [compile_oneGap_pattern] at h
  obtain ⟨wrapped, hinline, -⟩ := Except.bind_eq_ok.mp h
  exact ⟨wrapped, Except.mapError_eq_ok.mp hinline⟩

/-! ## A rule of two gaps -/

end Abnf
