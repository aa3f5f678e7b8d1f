import Abnf.Regex.Pattern
import Abnf.Text.Quoted

/-!
# A cursor over a text

A hand-written parser moves through a text by trying one thing after another. A cursor stands
between what has been passed and what is to come. Trying something either fails and says nothing
about where to stand, or succeeds and gives a cursor further on; no cursor ever goes back.
-/

namespace Abnf

/-- A point in a text. -/
structure Cursor where
  /-- The characters passed, the nearest first. -/
  before : List Char
  /-- The characters to come. -/
  after : List Char
  deriving DecidableEq, Repr

namespace Cursor

/-- The start of a text. -/
def start (text : List Char) : Cursor := ⟨[], text⟩

/-- How many characters have been passed. -/
def position (c : Cursor) : Nat := c.before.length

/-- The whole text. -/
def text (c : Cursor) : List Char := c.before.reverse ++ c.after

/-- Whether nothing is to come. -/
def atEnd (c : Cursor) : Bool := c.after.isEmpty

/-- The cursor one character further on, if there is one. -/
def next? (c : Cursor) : Option Cursor :=
  match c.after with
  | [] => none
  | char :: rest => some ⟨char :: c.before, rest⟩

/-- The cursor so many characters further on, or at the end. -/
def advance : Nat → Cursor → Cursor
  | 0, c => c
  | n + 1, c =>
    match c.next? with
    | none => c
    | some d => advance n d

/-- The cursor at a position of a text, if the text has that position. -/
def at? (text : List Char) (position : Nat) : Option Cursor :=
  if position ≤ text.length then some (advance position (start text)) else none

/-- What stands between a cursor and a later one. -/
def upTo (c d : Cursor) : List Char := c.after.take (d.position - c.position)

/-- The cursor behind a literal, if the literal comes next. -/
def literal? (c : Cursor) (literal : List Char) : Option Cursor :=
  if literal.isPrefixOf c.after then some (advance literal.length c) else none

/-- The place of a cursor for a pattern, which may look back. -/
def place (c : Cursor) : Regex.Place := { before := c.before, after := c.after }

/-- The cursor behind what a pattern takes here. -/
def behind? (c : Cursor) (pattern : Regex.Pattern) : Option Cursor :=
  (pattern.end? c.place).map fun q => ⟨q.before, q.after⟩

/-- What a pattern takes here, and the cursor behind it. -/
def match? (c : Cursor) (pattern : Regex.Pattern) : Option (Regex.Match × Cursor) :=
  (pattern.end? c.place).map fun q => (pattern.extract c.place q, ⟨q.before, q.after⟩)

/--
The cursor behind so many matches of a pattern, one after the other, at most. A match that takes
nothing does not count and ends the row.
-/
def rounds (pattern : Regex.Pattern) : Nat → Cursor → Cursor
  | 0, c => c
  | n + 1, c =>
    match c.behind? pattern with
    | none => c
    | some d => if d.position = c.position then c else rounds pattern n d

/--
What as many matches of a pattern as possible take in a row, and the cursor behind them. Each takes
a character, so there are no more than characters to come.
-/
def repeatedly? (c : Cursor) (pattern : Regex.Pattern) : Option (List Char × Cursor) :=
  let d := rounds pattern c.after.length c
  if d.position = c.position then none else some (c.upTo d, d)

/-- How many of the characters to come are shown. -/
def shownWidth : Nat := 20

/-- A cursor as it is shown. -/
def describe (c : Cursor) : List Char :=
  "<Matcher position=".toList ++ Text.decimal c.position ++ " upcoming=".toList
    ++ Text.quoted (c.after.take shownWidth) ++ ['>']

end Cursor

end Abnf
