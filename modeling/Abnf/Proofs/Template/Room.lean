import Abnf.Bundled.Basic
import Abnf.Proofs.Template.Filling

/-!
# Room for groups

How deeply groups may nest is for the interpreter to say. A grammar that can be compiled where they
may nest to some depth is compiled to the same rules where they may nest more deeply
(`compile_of_le`), if there are no patterns among its values: what these are read as may be another
matter in another interpreter.

So what the grammars that come with the library are compiled to need only be computed in the
interpreter with the least room that there is (`Bundled.rules_of_least`).
-/

namespace Abnf

open Grammar

variable {I J : Interpreter} {source : Datum} {values : List Datum} {rules : Rules}

/-! ## Phrases -/

/-- What a phrase stands for, it stands for where groups may nest more deeply. -/
theorem Grammar.Phrase.resolve_of_le {scope : Scope} {p : Phrase} {depth limit : Nat}
    {r : Expr × List Expr} (hle : depth ≤ limit) (h : p.resolve scope depth = some r) :
    p.resolve scope limit = some r := by
  -- the depth counts down at groups, and everything else hands it on
  induction p generalizing depth limit r with
  | reference | quoted | prose | codes => exact h
  | group body ih | option body ih =>
    obtain _ | depth := depth
    · cases h
    · obtain ⟨limit, rfl⟩ := Nat.exists_eq_add_of_le' (Nat.le_trans (Nat.le_add_left 1 depth) hle)
      obtain ⟨inner, hinner, rfl⟩ := Option.map_eq_some_iff.mp h
      exact Option.map_eq_some_iff.mpr ⟨inner, ih (Nat.le_of_succ_le_succ hle) hinner, rfl⟩
  | times bounds body ih =>
    rw [resolve] at h ⊢
    split at h
    · rename_i hbounds
      obtain ⟨inner, hinner, rfl⟩ := Option.map_eq_some_iff.mp h
      rw [if_pos hbounds, ih hle hinner]
      rfl
    · cases h
  | seq a b iha ihb | alt a b iha ihb =>
    obtain ⟨first, hfirst, h⟩ := Option.bind_eq_some_iff.mp h
    obtain ⟨second, hsecond, rfl⟩ := Option.map_eq_some_iff.mp h
    rw [resolve, iha hle hfirst, Option.bind_some, ihb hle hsecond]
    rfl

theorem Grammar.Phrase.expr?_of_le {scope : Scope} {p : Phrase} {depth limit : Nat} {expr : Expr}
    (hle : depth ≤ limit) (h : p.expr? scope depth = some expr) :
    p.expr? scope limit = some expr := by
  obtain ⟨r, hr, rfl⟩ := Option.map_eq_some_iff.mp h
  exact Option.map_eq_some_iff.mpr ⟨r, resolve_of_le hle hr, rfl⟩

/-! ## Rules -/

theorem Grammar.Scope.add?_of_le (hle : I.groupDepth ≤ J.groupDepth) {scope scope' : Scope}
    {d : Definition} (h : @Scope.add? I scope d = some scope') :
    @Scope.add? J scope d = some scope' := by
  have hbody {expr : Expr} (hexpr : d.body.expr? scope (@depthLimit I - 1) = some expr) :
      d.body.expr? scope (@depthLimit J - 1) = some expr :=
    Phrase.expr?_of_le (Nat.sub_le_sub_right hle 1) hexpr
  unfold Scope.add? at h ⊢
  split at h
  · cases h
  · rename_i hreserved
    rw [if_neg hreserved]
    split at h
    · rename_i hadds
      obtain ⟨old, hold, h⟩ := Option.bind_eq_some_iff.mp h
      obtain ⟨expr, hexpr, rfl⟩ := Option.map_eq_some_iff.mp h
      rw [if_pos hadds, hold, Option.bind_some, hbody hexpr]
      rfl
    · rename_i hadds
      obtain ⟨expr, hexpr, rfl⟩ := Option.map_eq_some_iff.mp h
      rw [if_neg hadds, hbody hexpr]
      rfl

theorem Grammar.Scope.addAll?_of_le (hle : I.groupDepth ≤ J.groupDepth) {scope scope' : Scope}
    {ds : List Definition} (h : @Scope.addAll? I scope ds = some scope') :
    @Scope.addAll? J scope ds = some scope' := by
  induction ds generalizing scope with
  | nil => exact h
  | cons d ds ih =>
    obtain ⟨mid, hmid, h⟩ := Option.bind_eq_some_iff.mp h
    exact Option.bind_eq_some_iff.mpr ⟨mid, Scope.add?_of_le hle hmid, ih h⟩

theorem Grammar.read_of_le (hle : I.groupDepth ≤ J.groupDepth) {given : Rules} {text : List Char}
    (h : @read I given text = .ok rules) : @read J given text = .ok rules := by
  obtain ⟨ds, scope, hended, hadd, hscope⟩ := (@read_eq_ok _ I _ _).mp h
  exact (@read_eq_ok _ J _ _).mpr ⟨ds, scope, hended, Scope.addAll?_of_le hle hadd, hscope⟩

/-! ## Templates -/

namespace Template

/-- A datum that both interpreters take for the same value, which is no pattern. -/
def Plain (I J : Interpreter) (datum : Datum) : Prop :=
  ∃ value, (∀ p, value ≠ .pattern p) ∧ @Value.ofDatum I datum = .ok value ∧
    @Value.ofDatum J datum = .ok value

/-- Such a datum is spliced in as the same text. -/
theorem Rendered.fill_eq_of_plain {datum : Datum} (h : Plain I J datum) (r : Rendered)
    (after : List Char) : @Rendered.fill J r datum after = @Rendered.fill I r datum after := by
  obtain ⟨value, hvalue, hI, hJ⟩ := h
  unfold Rendered.fill
  rw [hI, hJ]
  cases value with
  | text | choices => rfl
  | pattern p => exact absurd rfl (hvalue p)

theorem Rendered.fillAll_eq_of_plain {pairs : List (Datum × List Char)}
    (h : ∀ pair ∈ pairs, Plain I J pair.1) (r : Rendered) :
    @Rendered.fillAll J r pairs = @Rendered.fillAll I r pairs := by
  induction pairs generalizing r with
  | nil => rfl
  | cons pair pairs ih =>
    obtain ⟨datum, after⟩ := pair
    rw [List.forall_mem_cons] at h
    unfold Rendered.fillAll
    rw [Rendered.fill_eq_of_plain h.1]
    cases @Rendered.fill I r datum after with
    | error => rfl
    | ok next => exact ih h.2 next

theorem render_eq_of_plain {t : Template} (h : ∀ datum ∈ values, Plain I J datum) :
    @render J t values = @render I t values := by
  have hpairs : ∀ pair ∈ values.zip t.tail, Plain I J pair.1 := fun pair hpair =>
    h _ (List.of_mem_zip hpair).1
  unfold render
  rw [Rendered.fillAll_eq_of_plain hpairs]

end Template

/-- **More room for groups changes nothing about a grammar that can be compiled with less.** -/
theorem compile_of_le (hle : I.groupDepth ≤ J.groupDepth)
    (hplain : ∀ datum ∈ values, Template.Plain I J datum)
    (h : @compile I source values = .ok rules) : @compile J source values = .ok rules := by
  unfold compile at h ⊢
  cases htemplate : Template.ofDatum source with
  | error fault =>
    rw [htemplate] at h
    cases h
  | ok t =>
    rw [htemplate] at h
    obtain ⟨rendered, hrender, h⟩ := Except.bind_eq_ok.mp h
    have hread : @read I _ rendered.text = .ok rules := Except.mapError_eq_ok.mp h
    refine Except.bind_eq_ok.mpr ⟨rendered, ?_, ?_⟩
    · rw [← hrender]
      change Except.mapError _ (@Template.render J t values) =
        Except.mapError _ (@Template.render I t values)
      rw [Template.render_eq_of_plain hplain]
    · exact Except.mapError_eq_ok.mpr (read_of_le hle hread)

/-! ## The grammars that come with the library -/

/-- An interpreter that knows no names, with no more room than there has to be. -/
abbrev Interpreter.least : Interpreter where
  charNamed? _ := none
  groupDepth := 8
  valueDepth := 1
  room_for_groups := Nat.le_refl 8
  room_for_value := Nat.le_refl 1

/-- What the grammars are compiled to does not depend on the interpreter. -/
theorem Bundled.rules_of_least [Interpreter] {grammar : Bundled}
    (h : @Bundled.rules .least grammar = .ok rules) : grammar.rules = .ok rules := by
  have hle : Interpreter.least.groupDepth ≤ Interpreter.groupDepth := Interpreter.room_for_groups
  cases grammar with
  | rfc5234 => exact h
  | rfc3339 | rfc8259 => exact compile_of_le hle nofun h
  | rfc7231 =>
    refine compile_of_le hle (List.forall_mem_singleton.mpr ?_) h
    exact ⟨.choices (monthNames.map String.toList), fun _ => Template.Value.noConfusion, rfl, rfl⟩

end Abnf
