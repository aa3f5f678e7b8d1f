import Abnf.Text.CharKind
import Abnf.Text.Numeral

/-!
# How a group is told

A group is told by its name or by its number. A name is an identifier. A number may be written
freely: in the digits of any script, with white space around it, a sign before it and single
underscores between its digits.
-/

namespace Abnf.Regex

/--
Whether a text is the name of a group: a letter or underscore, and what a name may go on with.
-/
def isGroupName : List Char → Bool
  | [] => false
  | c :: cs => Text.isNameStart c && cs.all Text.isNamePart

/-- White space around a number. The separators U+001C to U+001F are none. -/
def isNumberSpace (c : Char) : Bool :=
  Text.isAsciiSpace c || (128 ≤ c.toNat && Text.isSpace c)

/-- The value of digits, of which some have been read. An underscore has to stand between two. -/
def groupedDigits? (value : Nat) (afterDigit : Bool) : List Char → Option Nat
  | [] => if afterDigit then some value else none
  | c :: cs =>
    if c = '_' then if afterDigit then groupedDigits? value false cs else none
    else (Text.decimalDigit? c).bind fun digit => groupedDigits? (value * 10 + digit) true cs

/-- The number that digits stand for, if there are not too many of them. -/
def unsignedNumber? (digits : List Char) : Option Nat :=
  if (digits.filter (· ≠ '_')).length ≤ Text.decimalLimit then groupedDigits? 0 false digits else
    none

/-- The number that a text stands for, if it is not below zero. -/
def groupNumber? (text : List Char) : Option Nat :=
  match ((text.dropWhile isNumberSpace).reverse.dropWhile isNumberSpace).reverse with
  | '-' :: digits => (unsignedNumber? digits).filter (· = 0)
  | '+' :: digits => unsignedNumber? digits
  | digits => unsignedNumber? digits

/-- There can be no group with this number or a higher one. -/
def groupLimit : Nat := 1073741823

end Abnf.Regex
