import Abnf.Datum.Checked

/-!
# Dates in headers

A date as a header gives it: the name of the day as written, and six numbers, each within the
bounds of what a calendar and a clock can show. The bounds are looser than the calendar: any month
may have 31 days here, there is a year zero, and a minute may have a leap second. Which dates are
instants is a question of its own.
-/

namespace Abnf

/-- The numbers of a date and time. -/
structure DateNumbers where
  day : Int
  month : Int
  year : Int
  hour : Int
  minute : Int
  second : Int
  deriving DecidableEq, Repr

/-- A number that a date has, by name and bounds. -/
structure DateField where
  name : String
  least : Int
  most : Int
  deriving DecidableEq, Repr

namespace DateField

def day : DateField := ⟨"day", 1, 31⟩
def month : DateField := ⟨"month", 1, 12⟩
def year : DateField := ⟨"year", 0, 9999⟩
def hour : DateField := ⟨"hour", 0, 23⟩
def minute : DateField := ⟨"minute", 0, 59⟩
def second : DateField := ⟨"second", 0, 60⟩

/-- A number within the bounds of a field. -/
def Holds (field : DateField) (n : Int) : Prop := field.least ≤ n ∧ n ≤ field.most

instance (field : DateField) (n : Int) : Decidable (field.Holds n) :=
  inferInstanceAs (Decidable (_ ∧ _))

/-- A number that has to be within the bounds of a field. -/
def check (field : DateField) (n : Int) : Checked Int :=
  if n < field.least then Checked.refuse (.below field.least)
  else if field.most < n then Checked.refuse (.above field.most)
  else .ok n

end DateField

/-- A date as a header gives it. -/
structure HttpDate where
  /-- The name of the day, as written. -/
  dayName : List Char
  numbers : DateNumbers
  deriving DecidableEq, Repr

namespace HttpDate

/-- A field of a record that has to be a number of a date. -/
def checkField (fields : List (List Char × Datum)) (field : DateField) : Checked Int :=
  Checked.field fields field.name fun datum =>
    match datum.checkInteger with
    | .ok n => field.check n
    | .error issues => .error issues

/-- A name and numbers, the issues of all of which are reported together. -/
def assemble (dayName : Checked (List Char)) (number : DateField → Checked Int) :
    Checked HttpDate :=
  let checked := dayName.both ((number .day).both ((number .month).both ((number .year).both
    ((number .hour).both ((number .minute).both (number .second))))))
  match checked with
  | .ok (dayName, day, month, year, hour, minute, second) =>
    .ok ⟨dayName, ⟨day, month, year, hour, minute, second⟩⟩
  | .error issues => .error issues

/-- The date that a record stands for. Fields that a date does not have are passed over. -/
def ofFields (fields : List (List Char × Datum)) : Checked HttpDate :=
  assemble (Checked.field fields "day_name" Datum.checkText) (checkField fields)

end HttpDate

end Abnf
