import Abnf.Text.WordTable
import Abnf.Text.HiddenTable
import Abnf.Text.NameTable

/-!
# Kinds of characters

The properties of characters that the rest of the library asks for: digits, parts of words, parts of
names, white space, and characters that a quoted text shows as they are. Each is decided by
comparison for the code points below U+0080 and by a table from there on.
-/

namespace Abnf.Text

/-- A decimal digit of any script. -/
def isDecimal (c : Char) : Bool :=
  if c.toNat < 128 then 48 ≤ c.toNat && c.toNat ≤ 57 else decimalRanges.has c.toNat

/-- A letter or number of any script, or an underscore. -/
def isWordChar (c : Char) : Bool :=
  if c.toNat < 128 then c.isAlphanum || c = '_' else wordRanges.has c.toNat

/-- The value of a decimal digit of any script; the digits of a script stand in order. -/
def decimalDigit? (c : Char) : Option Nat :=
  if c.toNat < 128 then
    if 48 ≤ c.toNat && c.toNat ≤ 57 then some (c.toNat - 48) else none
  else
    (decimalRanges.find? fun r => r.1 ≤ c.toNat && c.toNat ≤ r.2).map fun r =>
      (c.toNat - r.1) % 10

/-- A character that a name may start with. -/
def isNameStart (c : Char) : Bool :=
  if c.toNat < 128 then c.isAlpha || c = '_' else nameStartRanges.has c.toNat

/-- A character that a name may hold. -/
def isNamePart (c : Char) : Bool :=
  if c.toNat < 128 then c.isAlphanum || c = '_'
  else nameStartRanges.has c.toNat || nameMoreRanges.has c.toNat

/-- The white space beyond ASCII: next line, no-break space and the spaces of U+1680 to U+3000. -/
def spaceRanges : Ranges := [
  (133, 133), (160, 160), (5760, 5760), (8192, 8202), (8232, 8233), (8239, 8239), (8287, 8287),
  (12288, 12288)]

/-- White space of any script. The separators U+001C to U+001F are white space too. -/
def isSpace (c : Char) : Bool :=
  if c.toNat < 128 then
    (9 ≤ c.toNat && c.toNat ≤ 13) || (28 ≤ c.toNat && c.toNat ≤ 32)
  else spaceRanges.has c.toNat

/-- A character that has a shape of its own; of the separators, only the space. -/
def isShown (c : Char) : Bool :=
  if c.toNat < 128 then 32 ≤ c.toNat && c.toNat ≤ 126 else !hiddenRanges.has c.toNat

/-- The digits `0` to `9`. -/
def isAsciiDigit (c : Char) : Bool := '0' ≤ c && c ≤ '9'

/-- As `isWordChar`, for ASCII alone. -/
def isAsciiWordChar (c : Char) : Bool := c.isAlphanum || c = '_'

/-- As `isSpace`, for ASCII alone, where the separators U+001C to U+001F are not white space. -/
def isAsciiSpace (c : Char) : Bool := c = ' ' || (9 ≤ c.toNat && c.toNat ≤ 13)

end Abnf.Text
