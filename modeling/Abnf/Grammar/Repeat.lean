import Abnf.Text.Numeral

/-!
# Repeat counts

How often an element is repeated, as the grammar puts it: the two bounds, either of which may be
left out, or one exact count. Leaving out the lower bound is not the same as writing a zero,
because the regular expression keeps to what was written.
-/

namespace Abnf.Grammar

/-- How often an element is repeated. -/
inductive Repeat where
  /-- `*` -/
  | any
  /-- `n*` -/
  | atLeast (n : Nat)
  /-- `*m` -/
  | atMost (m : Nat)
  /-- `n*m` -/
  | between (n m : Nat)
  /-- `n` -/
  | exactly (n : Nat)
  deriving DecidableEq, Repr

namespace Repeat

/-- The fewest copies. -/
def least : Repeat → Nat
  | any | atMost _ => 0
  | atLeast n | between n _ | exactly n => n

/-- The most copies, if there is a bound. -/
def most : Repeat → Option Nat
  | any | atLeast _ => none
  | atMost m | between _ m => some m
  | exactly n => some n

/-- Bounds in braces. -/
def braces (inside : List Char) : List Char := '\x7b' :: inside ++ ['\x7d']

/-- A repeat as the quantifier of a regular expression. -/
def source : Repeat → List Char
  | any => ['*']
  | atLeast n => if n = 1 then ['+'] else braces (Text.decimal n ++ [','])
  | atMost m => braces (',' :: Text.decimal m)
  | between n m =>
    if n = m then braces (Text.decimal n) else braces (Text.decimal n ++ ',' :: Text.decimal m)
  | exactly n => braces (Text.decimal n)

end Repeat

end Abnf.Grammar
