import Abnf.Proofs.Grammar.Acceptance
import Abnf.Proofs.Template.Filling

/-!
# Layout does not matter

The notation derives many texts from the same rules: white space may be spaces, tabs, comments and
line ends in any mixture, a rule may go on over several lines, blank lines may stand between rules,
and a line may end either way. A template is filled to one of these texts, and what becomes of it
depends on the rules alone. That is so of a refusal too: `cause_read` has the cause from the rules,
and only the place where it is found is one of the text.
-/

namespace Abnf

open Grammar Token Template

variable {ds : List Definition} {source source' : Datum} {values values' : List Datum}
  {r r' : Rendered}

/-- A grammar text, assembled from a template and the values for its gaps. -/
def assemble [Interpreter] (source : Datum) (values : List Datum) :
    Except Template.Fault Rendered := do
  (← Template.ofDatum source).render values

/-- No carriage return is left at the end of an assembled text. -/
theorem getLast?_of_assemble [Interpreter] (h : assemble source values = .ok r) :
    r.text.getLast? ≠ some '\r' := by
  obtain ⟨template, -, hrender⟩ := Except.bind_eq_ok.mp h
  obtain ⟨filled, -, rfl⟩ := exists_filled hrender
  exact getLast?_strip_ne_return _

theorem compile_eq [Interpreter] (h : assemble source values = .ok r) :
    compile source values = readRendered r := by
  show (assemble source values).mapError _ >>= readRendered = _
  rw [h]
  rfl

/--
Two assembled texts of the same rules, with the same patterns for the names that stand for patterns,
come out alike. Either both are compiled, to the same rules in the same order, or both are refused,
for the same cause.
-/
theorem compile_layout [Interpreter] (hr : assemble source values = .ok r)
    (hr' : assemble source' values' = .ok r') (hnamed : r.named = r'.named)
    (hds : RuleList ds (r.text ++ ['\n'])) (hds' : RuleList ds (r'.text ++ ['\n'])) :
    (∃ rules, compile source values = .ok rules ∧ compile source' values' = .ok rules) ∨
      ∃ e e' : Grammar.Error, compile source values = .error (.grammar r.text e) ∧
        compile source' values' = .error (.grammar r'.text e') ∧ e.cause = e'.cause := by
  have hended := (exists_ended_iff (getLast?_of_assemble hr)).mpr hds
  have hended' := (exists_ended_iff (getLast?_of_assemble hr')).mpr hds'
  -- the outcome up to positions is that of the definitions, whatever text they are read from
  have hcause (given : Rules) :
      (read given r.text).mapError Error.cause = (read given r'.text).mapError Error.cause := by
    rw [cause_read hended, cause_read hended']
  rw [compile_eq hr, compile_eq hr']
  unfold readRendered
  dsimp only
  rw [← hnamed]
  generalize r.named.map _ = given
  have hcause := hcause given
  cases hread : read given r.text with
  | ok rules =>
    rw [hread] at hcause
    have hread' := Except.mapError_eq_ok.mp hcause.symm
    exact .inl ⟨rules, rfl, Except.mapError_eq_ok.mpr hread'⟩
  | error e =>
    rw [hread] at hcause
    obtain ⟨e', hread', he'⟩ := Except.mapError_eq_error.mp hcause.symm
    exact .inr ⟨e, e', rfl, Except.mapError_eq_error.mpr ⟨e', hread', rfl⟩, he'.symm⟩

/--
One rule twice: on one line, and over two lines with a comment between and a comment at the end.
-/
theorem compile_layout_comment : ∃ r r' : Rendered, ∃ source source' : List Char,
    source = ['a', '=', '2', '"', 'x', '"'] ∧
      source' =
        ['a', '\t', '=', ' ', ';', 'y', '\r', '\n', ' ', '2', '"', 'x', '"', '\n', ';', 'z'] ∧
      assemble (.text source) [] = .ok r ∧ assemble (.text source') [] = .ok r' ∧
      r.named = r'.named ∧
      ∃ ds, RuleList ds (r.text ++ ['\n']) ∧ RuleList ds (r'.text ++ ['\n']) ∧
        ((∃ rules, compile (.text source) [] = .ok rules ∧ compile (.text source') [] = .ok rules) ∨
          ∃ e e' : Grammar.Error, compile (.text source) [] = .error (.grammar r.text e) ∧
            compile (.text source') [] = .error (.grammar r'.text e') ∧ e.cause = e'.cause) := by
  have hr : assemble (.text ['a', '=', '2', '"', 'x', '"']) [] =
      .ok ⟨['a', '=', '2', '"', 'x', '"'], []⟩ := by decide +kernel
  have hr' : assemble
      (.text ['a', '\t', '=', ' ', ';', 'y', '\r', '\n', ' ', '2', '"', 'x', '"', '\n', ';', 'z'])
      [] =
      .ok ⟨['a', '\t', '=', ' ', ';', 'y', '\r', '\n', ' ', '2', '"', 'x', '"', '\n', ';', 'z'],
        []⟩ := by
    decide +kernel
  have hname : RuleName ['a'] := .letter (by decide)
  have hbody : Derives .alternation (.times (.exact ['2']) (.quoted ['x'])) ['2', '"', 'x', '"'] :=
    .only (.single (.times (v := ['2']) (.exact (.digit (by decide))) (.quoted (by simp; decide))))
  have hrule : RuleText ⟨['a'], false, .times (.exact ['2']) (.quoted ['x'])⟩
      ['a', '=', '2', '"', 'x', '"'] :=
    RuleText.mk (d := ⟨['a'], false, .times (.exact ['2']) (.quoted ['x'])⟩) hname .nil .nil hbody
      .nil
  have htab : Blanks ['\t'] := .cons (.blank (by decide)) .nil
  have hcomment : LineEnd [';', 'y', '\r', '\n'] :=
    .mk (@Remark.comment ['y'] (List.forall_mem_singleton.mpr rfl)) .crlf
  have hfold : Blanks [' ', ';', 'y', '\r', '\n', ' '] :=
    .cons (b := [' ']) (.blank (by decide)) (.cons (.folded hcomment (by decide)) .nil)
  have hrule' : RuleText ⟨['a'], false, .times (.exact ['2']) (.quoted ['x'])⟩
      ['a', '\t', '=', ' ', ';', 'y', '\r', '\n', ' ', '2', '"', 'x', '"'] :=
    RuleText.mk (d := ⟨['a'], false, .times (.exact ['2']) (.quoted ['x'])⟩) hname htab hfold hbody
      .nil
  have hlast : LineEnd [';', 'z', '\n'] :=
    .mk (@Remark.comment ['z'] (List.forall_mem_singleton.mpr rfl)) .lf
  have hds : RuleList [⟨['a'], false, .times (.exact ['2']) (.quoted ['x'])⟩]
      (['a', '=', '2', '"', 'x', '"'] ++ ['\n']) :=
    ⟨by simp, .rule hrule (.mk .nothing .lf) .nil⟩
  have hds' : RuleList [⟨['a'], false, .times (.exact ['2']) (.quoted ['x'])⟩]
      (['a', '\t', '=', ' ', ';', 'y', '\r', '\n', ' ', '2', '"', 'x', '"', '\n', ';', 'z'] ++
        ['\n']) :=
    ⟨by simp, .rule hrule' (.mk .nothing .lf) (.blank .nil hlast .nil)⟩
  exact ⟨_, _, _, _, rfl, rfl, hr, hr', rfl, _, hds, hds', compile_layout hr hr' rfl hds hds'⟩

end Abnf
