import Abnf.Bundled.Rfc7231
import Abnf.HttpDate.Basic
import Abnf.Text.Casing

/-!
# Reading a date

A date is read part by part, with fixed marks between the parts. Every part has a fixed number of
characters, and which digits may follow each other is decided here, so that what has been read is
within the bounds of a date. Names are recognised in any case; the name of the day is kept as
written.
-/

namespace Abnf.HttpDate

/-- A part of a date. -/
inductive Part where
  | dayName
  | day
  | month
  | year
  | hour
  | minute
  | second
  deriving DecidableEq, Repr

namespace Part

/-- The name of a part, as messages use it. -/
def name : Part → String
  | dayName => "day-name"
  | day => "day"
  | month => "month"
  | year => "year"
  | hour => "hour"
  | minute => "minute"
  | second => "second"

end Part

/-- The names of the days in order. -/
def dayNames : List String := ["Mon", "Tue", "Wed", "Thu", "Fri", "Sat", "Sun"]

/-- Why a text is no date. -/
inductive Cause where
  /-- No such part where it should be. -/
  | expectedPart (part : Part)
  /-- Other characters than the marks that should be. -/
  | expectedMark (mark : List Char)
  /-- More text after the date. -/
  | trailing
  deriving DecidableEq, Repr

/-- What is wrong with a text, or with the date that it gives. -/
inductive Fault where
  /-- The text is no date from a position on. -/
  | unreadable (cause : Cause) (position : Nat)
  /-- The date is not within its bounds. -/
  | invalid (issues : List Issue)
  deriving DecidableEq, Repr

/-- What is said of a text that is no date; issues speak for themselves. -/
def Fault.message : Fault → String
  | unreadable cause position =>
    let what :=
      match cause with
      | .expectedPart part => "Expected " ++ part.name
      | .expectedMark mark => "Expected \"" ++ String.ofList mark ++ "\""
      | .trailing => "Unexpected data"
    what ++ " at position " ++ toString position ++ "."
  | invalid _ => ""

/-- Whether a text is a name in any case. -/
def isName (text : List Char) (name : String) : Bool :=
  text.map Text.asciiLower = name.toList.map Text.asciiLower

/-- A digit up to another one. -/
def isUpTo (last c : Char) : Bool := '0' ≤ c && c ≤ last

/-- Whether so many characters are a part of a date. -/
def Part.isText : Part → List Char → Bool
  | dayName, cs => dayNames.any (isName cs)
  | month, cs => Bundled.monthNames.any (isName cs)
  | year, [a, b, c, d] => [a, b, c, d].all Text.isAsciiDigit
  | day, [a, b] =>
    (a = '0' && Text.isAsciiDigit b && b ≠ '0') || ((a = '1' || a = '2') && Text.isAsciiDigit b)
      || (a = '3' && (b = '0' || b = '1'))
  | hour, [a, b] => ((a = '0' || a = '1') && Text.isAsciiDigit b) || (a = '2' && isUpTo '3' b)
  | minute, [a, b] => isUpTo '5' a && Text.isAsciiDigit b
  | second, [a, b] => (isUpTo '5' a && Text.isAsciiDigit b) || (a = '6' && b = '0')
  | _, _ => false

/-- How many characters a part has. -/
def Part.width : Part → Nat
  | dayName | month => 3
  | year => 4
  | _ => 2

/-- Ends the reading with so many characters read. -/
def refuse {α : Type} (cause : Cause) (position : Nat) : Except Fault α :=
  .error (.unreadable cause position)

/-- Reads a part that has to come next. -/
def readPart (part : Part) (position : Nat) (cs : List Char) :
    Except Fault (List Char × Nat × List Char) :=
  let taken := cs.take part.width
  if part.isText taken then .ok (taken, position + part.width, cs.drop part.width)
  else refuse (.expectedPart part) position

/-- Reads a mark that has to come next. -/
def readMark (mark : List Char) (position : Nat) (cs : List Char) :
    Except Fault (Nat × List Char) :=
  if mark.isPrefixOf cs then .ok (position + mark.length, cs.drop mark.length)
  else refuse (.expectedMark mark) position

/-- The number of a month, counted from one. -/
def monthNumber (name : List Char) : Nat :=
  ((Bundled.monthNames.findIdx? (isName name)).map (· + 1)).getD 0

/-- The value of digits. -/
def value (digits : List Char) : Int := Text.numeralValue 10 digits

/-- The date that a text gives. -/
def parse (text : List Char) : Except Fault HttpDate := do
  let (dayName, pos, cs) ← readPart .dayName 0 text
  let (pos, cs) ← readMark [',', ' '] pos cs
  let (day, pos, cs) ← readPart .day pos cs
  let (pos, cs) ← readMark [' '] pos cs
  let (month, pos, cs) ← readPart .month pos cs
  let (pos, cs) ← readMark [' '] pos cs
  let (year, pos, cs) ← readPart .year pos cs
  let (pos, cs) ← readMark [' '] pos cs
  let (hour, pos, cs) ← readPart .hour pos cs
  let (pos, cs) ← readMark [':'] pos cs
  let (minute, pos, cs) ← readPart .minute pos cs
  let (pos, cs) ← readMark [':'] pos cs
  let (second, pos, cs) ← readPart .second pos cs
  let (pos, cs) ← readMark [' ', 'G', 'M', 'T'] pos cs
  if !cs.isEmpty then refuse .trailing pos
  else
    let number (field : DateField) : Checked Int :=
      field.check
        (if field = .day then value day
        else if field = .month then monthNumber month
        else if field = .year then value year
        else if field = .hour then value hour
        else if field = .minute then value minute
        else value second)
    (assemble (.ok dayName) number).mapError .invalid

end Abnf.HttpDate
