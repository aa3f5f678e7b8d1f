import Abnf.HttpDate.Basic
import Abnf.Text.Numeral

/-!
# Dates that are instants

A date is an instant if the calendar has its day and the clock its second: the calendar is the
Gregorian one, reckoned back to the year one, and the clock knows no leap seconds. The first thing
that stands in the way is the one that is reported.
-/

namespace Abnf.HttpDate

/-- Why a date is no instant. -/
inductive NoInstant where
  /-- The calendar has no year zero. -/
  | yearZero
  /-- The month has no such day. -/
  | dayOfMonth
  /-- The clock has no leap seconds. -/
  | leapSecond
  deriving DecidableEq, Repr

/-- What is said of a date that is no instant. -/
def NoInstant.message : NoInstant → String
  | yearZero => "year 0 is out of range"
  | dayOfMonth => "day is out of range for month"
  | leapSecond => "second must be in 0..59"

/-- A year with a 29th of February. -/
def isLeapYear (year : Int) : Bool := year % 4 = 0 && (year % 100 ≠ 0 || year % 400 = 0)

/-- How many days a month of a year has. -/
def daysInMonth (year month : Int) : Int :=
  if month = 2 then (if isLeapYear year then 29 else 28)
  else if [4, 6, 9, 11].contains month then 30
  else 31

/-- The numbers of a date, if it is an instant. -/
def toInstant (date : HttpDate) : Except NoInstant DateNumbers :=
  let n := date.numbers
  if n.year < 1 then .error .yearZero
  else if daysInMonth n.year n.month < n.day then .error .dayOfMonth
  else if 59 < n.second then .error .leapSecond
  else .ok n

/-- A number with zeros in front. -/
def padded (width : Nat) (n : Int) : List Char := (Text.decimal n.toNat).leftpad width '0'

/-- An instant as text: year to second, in coordinated universal time. -/
def instantText (n : DateNumbers) : List Char :=
  padded 4 n.year ++ '-' :: padded 2 n.month ++ '-' :: padded 2 n.day ++ 'T' :: padded 2 n.hour
    ++ ':' :: padded 2 n.minute ++ ':' :: padded 2 n.second ++ "+00:00".toList

end Abnf.HttpDate
