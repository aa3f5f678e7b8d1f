import Abnf.Grammar.CoreRule
import Abnf.Grammar.Repeat
import Abnf.Grammar.Literal

/-!
# What a rule stands for

The meaning of a definition with every reference resolved: a reference holds what the rule stood for
when it was read, so that later definitions cannot reach it. Alternatives are kept in order, because
a regular expression prefers the first.

`Expr.source` writes an expression as a regular expression. Only alternatives need parentheses
around them; `grouped`, `optional` and `repeated` bring their own, and everything else may stand
beside anything.
-/

namespace Abnf.Grammar

/-- What a rule stands for. -/
inductive Expr where
  /-- A string in any case. -/
  | literal (text : List Char)
  /-- Code points, one after the other. -/
  | codes (codes : List Nat)
  /-- A code point from `first` to `last`. -/
  | range (first last : Nat)
  /-- A core rule. -/
  | core (rule : CoreRule)
  /-- A regular expression put in from outside. -/
  | foreign (source : List Char)
  /-- One after the other. -/
  | seq (a b : Expr)
  /-- The one or the other. -/
  | alt (a b : Expr)
  /-- Alternatives in parentheses. -/
  | grouped (body : Expr)
  /-- The body or nothing. -/
  | optional (body : Expr)
  /-- Copies of the body. -/
  | repeated (times : Repeat) (body : Expr)
  deriving DecidableEq, Repr

namespace Expr

/-- A regular expression in parentheses that capture nothing. -/
def parenthesise (source : List Char) : List Char := '(' :: '?' :: ':' :: source ++ [')']

/-- An expression as a regular expression. -/
def source : Expr → List Char
  | literal text => literalSource text
  | codes cs => cs.flatMap codeSource
  | range first last => '[' :: codeSource first ++ '-' :: codeSource last ++ [']']
  | core rule => rule.source
  | foreign source => source
  | seq a b => a.source ++ b.source
  | alt a b => a.source ++ '|' :: b.source
  | grouped body => parenthesise body.source
  | optional body => parenthesise body.source ++ ['?']
  | repeated times body => parenthesise body.source ++ times.source

/-- Alternatives in order, in parentheses if there are several. -/
def anyOf (first : Expr) : List Expr → Expr
  | [] => first
  | second :: rest => grouped (alternatives first second rest)
where
  alternatives (first second : Expr) : List Expr → Expr
    | [] => alt first second
    | third :: rest => alt first (alternatives second third rest)

end Expr

end Abnf.Grammar
