import Abnf.Datum.Basic
import Abnf.Text.CharKind
import Abnf.Text.Numeral

/-!
# Checking data

A check looks at data of any kind and either takes from it what was asked for or lists what is
wrong, each issue with the path to where it is. A check of several fields goes through all of them,
so one list reports all that is wrong.

Values and dates are made from data in this way, before anything is done with them. What a kind of
datum is taken for (a `bool` for an integer, digits for a number, bytes in UTF-8 for a text) and how
an issue is worded are conventions of checking that the rest of the library knows nothing of. It
gets what was asked for; integers are only asked for where a date is made from a record.
-/

namespace Abnf

/-- What can be wrong with a datum. -/
inductive Problem where
  /-- Not a string. -/
  | notText
  /-- Bytes that are no text in UTF-8. -/
  | notUtf8
  /-- A field that is not there. -/
  | missing
  /-- Not a collection in order. -/
  | notTuple
  /-- Not a pattern, nor the text of one. -/
  | notPattern
  /-- The text of no pattern. -/
  | notRegex
  /-- The text of a pattern with a repeat count that has too many digits. -/
  | repeatTooLong (long : Text.NumeralTooLong)
  /-- A pattern over bytes. -/
  | overBytes
  /-- A record that does not say what it is. -/
  | tagMissing
  /-- A record that says it is something unknown. -/
  | tagUnknown (tag : List Char)
  /-- A number below the least that is allowed. -/
  | below (least : Int)
  /-- A number above the most that is allowed. -/
  | above (most : Int)
  /-- Not an integer, nor anything that stands for one. -/
  | notInteger
  /-- A string that is no integer. -/
  | notIntegerText
  /-- A number with a fraction. -/
  | fractional
  /-- A number that is not finite. -/
  | notFinite
  deriving DecidableEq, Repr

namespace Problem

/-- The short name of a problem. -/
def code : Problem → String
  | notText => "string_type"
  | notUtf8 => "string_unicode"
  | missing => "missing"
  | notTuple => "tuple_type"
  | notPattern => "pattern_type"
  | notRegex => "pattern_regex"
  | repeatTooLong _ | overBytes => "value_error"
  | tagMissing => "union_tag_not_found"
  | tagUnknown _ => "union_tag_invalid"
  | below _ => "greater_than_equal"
  | above _ => "less_than_equal"
  | notInteger => "int_type"
  | notIntegerText => "int_parsing"
  | fractional => "int_from_float"
  | notFinite => "finite_number"

/-- What is said of a problem. -/
def message : Problem → String
  | notText => "Input should be a valid string"
  | notUtf8 => "Input should be a valid string, unable to parse raw data as a unicode string"
  | missing => "Field required"
  | notTuple => "Input should be a valid tuple"
  | notPattern => "Input should be a valid pattern"
  | notRegex => "Input should be a valid regular expression"
  | repeatTooLong long => "Value error, " ++ long.message
  | overBytes => "Value error, Interpolated patterns must be str patterns"
  | tagMissing => "Unable to extract tag using discriminator 'kind'"
  | tagUnknown tag =>
    "Input tag '" ++ String.ofList tag ++ "' found using 'kind' does not match any of the expected "
      ++ "tags: 'string', 'string-set', 'pattern'"
  | below least => "Input should be greater than or equal to " ++ toString least
  | above most => "Input should be less than or equal to " ++ toString most
  | notInteger => "Input should be a valid integer"
  | notIntegerText => "Input should be a valid integer, unable to parse string as an integer"
  | fractional => "Input should be a valid integer, got a number with a fractional part"
  | notFinite => "Input should be a finite number"

end Problem

/-- A step from a datum to a part of it. -/
inductive PathStep where
  | field (name : String)
  | index (position : Nat)
  deriving DecidableEq, Repr

/-- A problem and the path to it. -/
structure Issue where
  problem : Problem
  path : List PathStep := []
  deriving DecidableEq, Repr

/-- What was asked for, or all that is wrong. -/
abbrev Checked (α : Type) := Except (List Issue) α

namespace Checked

/-- Refuses a datum for one problem. -/
def refuse {α : Type} (problem : Problem) : Checked α := .error [{ problem := problem }]

/-- A check of a part, whose issues lie one step further. -/
def under {α : Type} (step : PathStep) : Checked α → Checked α
  | .ok a => .ok a
  | .error issues => .error (issues.map fun issue => { issue with path := step :: issue.path })

/-- Two checks, and the issues of both if either fails. -/
def both {α β : Type} (first : Checked α) (second : Checked β) : Checked (α × β) :=
  match first, second with
  | .ok a, .ok b => .ok (a, b)
  | .error issues, .ok _ => .error issues
  | .ok _, .error more => .error more
  | .error issues, .error more => .error (issues ++ more)

/-- A check of every item from a position on, and the issues of all. -/
def every {α β : Type} (check : α → Checked β) : (position : Nat) → List α → Checked (List β)
  | _, [] => .ok []
  | position, a :: rest =>
    match both ((check a).under (.index position)) (every check (position + 1) rest) with
    | .ok (b, bs) => .ok (b :: bs)
    | .error issues => .error issues

/-- A check of a field that has to be there. -/
def field {α : Type} (fields : List (List Char × Datum)) (name : String)
    (check : Datum → Checked α) : Checked α :=
  Checked.under (.field name) <|
    match fields.lookup name.toList with
    | none => refuse .missing
    | some datum => check datum

end Checked

namespace Datum

/-- The characters of a text, or of bytes that are one. -/
def checkText : Datum → Checked (List Char)
  | text chars => .ok chars
  | bytes codes =>
    match String.fromUTF8? ⟨(codes.map UInt8.ofNat).toArray⟩ with
    | some s => .ok s.toList
    | none => Checked.refuse .notUtf8
  | _ => Checked.refuse .notText

/-- The texts of a collection. -/
def checkTexts : Datum → Checked (List (List Char))
  | list items | tuple items | set items => Checked.every checkText 0 items
  | _ => Checked.refuse .notTuple

/-- A text of digits, perhaps with a sign, white space around it and zeros behind a point. -/
def integerText? (text : List Char) : Option Int :=
  let text := (((text.dropWhile Text.isSpace).reverse).dropWhile Text.isSpace).reverse
  let (negative, unsigned) :=
    match text with
    | '-' :: rest => (true, rest)
    | '+' :: rest => (false, rest)
    | rest => (false, rest)
  let whole := unsigned.takeWhile (· ≠ '.')
  let digits := whole.filter (· ≠ '_')
  let zeros := unsigned.dropWhile (· ≠ '.')
  let spaced := whole.head? ≠ some '_' && whole.getLast? ≠ some '_'
  let doubled := (whole.zip (whole.drop 1)).any fun (c, d) => c = '_' && d = '_'
  if digits.isEmpty || !digits.all Text.isAsciiDigit || !spaced || doubled ||
      !(zeros.isEmpty || (1 < zeros.length && (zeros.drop 1).all (· = '0'))) then none
  else
    let size : Int := Text.numeralValue 10 digits
    some (if negative then -size else size)

/-- The integer that a datum stands for. -/
def checkInteger : Datum → Checked Int
  | .int n => .ok n
  | .bool b => .ok (if b then 1 else 0)
  | .real x =>
    match x.toInt? with
    | some n => .ok n
    | none => Checked.refuse (if x.isFinite then .fractional else .notFinite)
  | .text chars =>
    match integerText? chars with
    | some n => .ok n
    | none => Checked.refuse .notIntegerText
  | _ => Checked.refuse .notInteger

end Datum

end Abnf
