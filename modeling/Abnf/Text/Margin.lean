import Abnf.Text.CharKind

/-!
# Margins

Text written inside a program is usually indented as a whole. `dedent` takes that common margin
away: the longest run of spaces and tabs that every line with content starts with. Lines of nothing
but spaces and tabs have no say in it and are emptied. Only the newline ends a line, so a carriage
return counts as content.
-/

namespace Abnf.Text

/-- The lines of a text, without their newlines. There is one more line than there are newlines. -/
def splitLines : List Char → List (List Char)
  | [] => [[]]
  | c :: cs =>
    if c = '\n' then [] :: splitLines cs
    else
      match splitLines cs with
      | [] => [[c]]
      | line :: lines => (c :: line) :: lines

/-- Lines with a newline between each and the next. -/
def joinLines : List (List Char) → List Char
  | [] => []
  | [line] => line
  | line :: lines => line ++ '\n' :: joinLines lines

/-- A space or tab. -/
def isIndent (c : Char) : Bool := c = ' ' || c = '\t'

/-- The start that two texts have in common. -/
def commonStart : List Char → List Char → List Char
  | c :: cs, d :: ds => if c = d then c :: commonStart cs ds else []
  | _, _ => []

/-- The spaces and tabs that all lines with content start with. -/
def margin (lines : List (List Char)) : List Char :=
  match (lines.filter fun line => !line.all isIndent).map (·.takeWhile isIndent) with
  | [] => []
  | indent :: indents => indents.foldl commonStart indent

/-- A text without the margin of its lines. -/
def dedent (text : List Char) : List Char :=
  let lines := splitLines text
  let width := (margin lines).length
  joinLines (lines.map fun line => if line.all isIndent then [] else line.drop width)

/-- A text without the white space at its ends. -/
def strip (text : List Char) : List Char :=
  (((text.dropWhile isSpace).reverse).dropWhile isSpace).reverse

end Abnf.Text
