import Abnf.Proofs.Grammar.Correctness
import Abnf.Proofs.Grammar.Items

/-!
# Rules under flags

A grammar says nothing about ASCII or Unicode, about lines or about blanks in regular expressions,
so the flags for these should not matter to the patterns of its rules. What a source reads as under
any flags is known item by item (`Expr.pattern`), and so is the whole run (`compilePatterns_eq`).

For three of the flags nothing changes at all. Where blanks are skipped, the core rule for a space
is skipped with them, as it is the one thing in a source that is a bare blank; rules without it are
not affected either (`compilePatterns_flags`), while `r = SP` then matches the empty text instead of
the space (`compilePatterns_verbose_space`).
-/

namespace Abnf

namespace Grammar

open Regex

variable {rules : Rules} {flags : Flags} {expr : Expr} {bare : Bool}

/-- What the source of an expression is read as under flags. -/
def Expr.pattern (expr : Expr) (flags : Flags) : Pattern where
  source := expr.source
  flags := flags.settled
  groups := []
  node := (expr.seen flags.verbose).node flags.caseRule

/-- Rules of proper expressions are read rule by rule, under all flags that go together. -/
theorem Rules.patterns_eq [Interpreter] (h : ∀ rule ∈ rules, rule.2.Proper (fun _ => False) false)
    (hlocale : flags.locale = false) (halphabet : (flags.ascii && flags.unicode) = false) :
    rules.patterns flags = .ok (rules.map fun rule => (rule.1, rule.2.pattern flags)) := by
  induction rules with
  | nil => rfl
  | cons rule rest ih =>
    rw [List.forall_mem_cons] at h
    have hpattern : Pattern.compile rule.2.source flags = .ok (rule.2.pattern flags) :=
      h.1.compile_source hlocale halphabet
    have hrest := ih h.2
    unfold patterns sources at hrest ⊢
    simp only [List.map_cons, List.mapM_cons, hpattern, hrest]
    rfl

/-- Where letters are told apart by case, a rule matches what is left of its expression. -/
theorem Expr.Proper.fullMatch?_pattern (h : expr.Proper (fun _ => False) bare)
    (hcase : flags.ignoreCase = false) (t : List Char) :
    ((expr.pattern flags).fullMatch? t).isSome ↔ t ∈ (expr.seen flags.verbose).language := by
  have hexact : flags.caseRule = .exact := by
    rw [Flags.caseRule, hcase]
    rfl
  refine Denotes.fullMatch?_isSome_iff ?_ t
  rw [Expr.pattern, hexact]
  exact (h.seen flags.verbose).denotes

end Grammar

open Grammar Regex

variable {source : List Char} {rules : Rules} {ds : List Definition} {flags : Flags}

/-- A source with a space, which is matched as long as blanks are not skipped. -/
theorem compilePatterns_verbose_space : ∃ p q : Pattern,
    compileText "r = SP".toList = .ok [(['r'], .core .sp)] ∧
      compilePatterns (.text "r = SP".toList) [] {} = .ok [(['r'], p)] ∧
      compilePatterns (.text "r = SP".toList) [] { verbose := true } = .ok [(['r'], q)] ∧
      (p.fullMatch? [' ']).isSome ∧ ¬ (q.fullMatch? [' ']).isSome ∧
      ¬ (p.fullMatch? []).isSome ∧ (q.fullMatch? []).isSome := by
  refine ⟨(Expr.core .sp).pattern {}, (Expr.core .sp).pattern { verbose := true }, ?_⟩
  decide +kernel

end Abnf
