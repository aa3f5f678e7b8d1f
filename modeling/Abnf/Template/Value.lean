import Abnf.Regex.Pattern

/-!
# Values to splice into a grammar

A template has gaps, and a value fills each: a string, a collection of strings as alternatives, or a
regular expression. Two expressions may read the same and yet be two different values, and one value
may fill several gaps; which values are one and the same is therefore part of the value.

A pattern that is asked for by its text is the same value each time only because compiled
expressions are kept, and the one that is kept for a text is handed out again. That is how things go
as long as not so many expressions have been compiled in between that it had to be dropped.
-/

namespace Abnf.Template

/-- What makes a pattern the same value as another. -/
inductive Identity where
  /-- A pattern of its own, told apart by a number. -/
  | unique (number : Nat)
  /-- A pattern asked for by its text: the one that is kept for the text. -/
  | ofText (source : List Char)
  deriving DecidableEq, Repr

/-- A pattern as a value. -/
structure PatternValue where
  identity : Identity
  pattern : Regex.Pattern
  deriving Repr

/-- A value to splice into a grammar. -/
inductive Value where
  /-- A string, in any case. -/
  | text (text : List Char)
  /-- Strings as alternatives, in order. -/
  | choices (texts : List (List Char))
  /-- A regular expression. -/
  | pattern (pattern : PatternValue)
  deriving Repr

end Abnf.Template
