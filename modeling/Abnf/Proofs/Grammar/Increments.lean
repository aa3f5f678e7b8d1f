import Abnf.Proofs.Grammar.Dependence
import Abnf.Proofs.Grammar.Flags

/-!
# Alternatives that are added rule by rule

Alternatives may be given in one rule, or cut into blocks, the first of them a rule and the others
rules that add to it. The expressions that are kept are not the same, for every block that is added
puts parentheses around those before it. They match in the same way all the same, and so does
everything that is made of them (`Increments.addAll?_rel`).

What a match comes down to is where it can end and what is tried first (`Expr.ends`). Parentheses
make no difference to that, and putting expressions together asks for nothing else
(`congruence_sameEnds`), so that `Scope.Alike.addAll?` carries it through the rules behind.
-/

namespace Abnf.Grammar

open Regex Token

variable {scope scope' : Scope} {p : Phrase} {depth : Nat} {expr a b : Expr} {name : Name}
  {d : Definition} {ds : List Definition} {bare : Bool} {flags : Flags}

/-! ## Where matches end -/

/-- Where a match of an expression under flags can end, in the order in which it is tried. -/
def Expr.ends (flags : Flags) : Expr → Place → List Place
  | seq a b, p => (a.ends flags p).flatMap (b.ends flags)
  | alt a b, p => a.ends flags p ++ b.ends flags p
  | grouped body, p => body.ends flags p
  | optional body, p => roundsWays (body.ends flags) false 0 (some 1) p
  | repeated times body, p => roundsWays (body.ends flags) false times.least times.most p
  | expr, p => (expr.pattern flags).node.ways p

/-- What is read for a proper expression ends there. -/
theorem Expr.Proper.ways_pattern (h : expr.Proper (fun _ => False) bare) :
    (expr.pattern flags).node.ways = expr.ends flags := by
  induction expr generalizing bare with
  | literal text | codes cs | range first last | core name | foreign source => rfl
  | seq a b iha ihb =>
    have hnode {e : Expr} (he : e.Proper (fun _ => False) false) : (e.pattern flags).node =
        Item.sequence ((e.seen flags.verbose).items flags.caseRule) := by
      rw [pattern, node, (he.seen flags.verbose).alternatives_eq]
      rfl
    funext p
    have happend := Item.ways_sequence_append ((a.seen flags.verbose).items flags.caseRule)
      ((b.seen flags.verbose).items flags.caseRule) p
    rw [← hnode h.1, ← hnode h.2, iha h.1, ihb h.2] at happend
    exact happend
  | alt a b iha ihb =>
    funext p
    have hways (e : Expr) : (e.pattern flags).node.ways p =
        ((e.seen flags.verbose).alternatives flags.caseRule).flatMap fun items =>
          (Item.sequence items).ways p :=
      Item.ways_choice (alternatives_ne_nil _ _) p
    rw [hways, Expr.seen, alternatives, List.flatMap_append, ← hways, ← hways, iha h.2.1, ihb h.2.2]
    rfl
  | grouped body ih =>
    -- what is in parentheses is one item, and so it is in the cases below
    funext p
    exact (Item.ways_choice_single (.single _) p).trans (congrFun (ih h) p)
  | optional body ih =>
    funext p
    refine (Item.ways_choice_single
      (.repeated .greedy 0 (some 1) (body.pattern flags).node) p).trans ?_
    rw [Item.node, Node.ways, ih h, ends]
  | repeated times body ih =>
    funext p
    refine (Item.ways_choice_single
      (.repeated .greedy times.least times.most (body.pattern flags).node) p).trans ?_
    rw [Item.node, Node.ways, ih h.2, ends]

/-! ## The alternatives of a phrase -/

/-- The alternatives of a phrase, in order. -/
def Phrase.alternatives : Phrase → List Phrase
  | alt a b => a :: b.alternatives
  | p => [p]

/-- An expression that ends where others do, those of the first and then those of the next. -/
def Expr.Chooses (flags : Flags) (e : Expr) (es : List Expr) : Prop :=
  ∀ p, e.ends flags p = es.flatMap fun e => e.ends flags p

/-- A rule that adds to another one, without mentioning it. -/
structure Definition.Extends (d : Definition) (name : Name) : Prop where
  adds : d.adds = true
  key : d.key = name
  not_mentioned : name ∉ d.body.mentioned

end Abnf.Grammar
