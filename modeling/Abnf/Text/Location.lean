/-!
# Where a position lies

A position counts the characters before it. People look for a place by line and column, both from
one; only the newline character ends a line, so the carriage return of a two-character line end is
the last column of its line.
-/

namespace Abnf.Text

/-- A line and a column, both counted from one. -/
structure Location where
  line : Nat
  column : Nat
  deriving DecidableEq, Repr

namespace Location

/-- The location of the first character. -/
def start : Location := ⟨1, 1⟩

/-- The location after a character. -/
def after (here : Location) (c : Char) : Location :=
  if c = '\n' then ⟨here.line + 1, 1⟩ else ⟨here.line, here.column + 1⟩

/-- The location of a position in a text. -/
def ofPosition (text : List Char) (position : Nat) : Location :=
  (text.take position).foldl after start

/-- A location in words. -/
def describe (here : Location) : String :=
  "line " ++ toString here.line ++ ", column " ++ toString here.column

end Location

end Abnf.Text
