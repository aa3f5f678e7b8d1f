import Abnf.Proofs.Datum.Checked
import Abnf.Proofs.HttpDate.Calendar

/-!
# Dates made from records

A date need not be read from a text: a record of its fields makes one as well. What holds of every
date that is read holds of these too, the numbers are within their bounds
(`withinBounds_of_ofFields`). A date can be taken apart and made again, however its numbers are
handed in (`ofFields_toFields`), for instance in digits. Where a record makes no date, each issue
says in which field it is (`blames_ofFields`).
-/

namespace Abnf

/-- The numbers that a date has. -/
def DateField.all : List DateField := [day, month, year, hour, minute, second]

namespace HttpDate

variable {fields : List (List Char × Datum)} {date : HttpDate} {field : DateField} {n : Int}
  {dayName : Checked (List Char)} {number : DateField → Checked Int}

theorem checkField_eq_ok : checkField fields field = .ok n ↔
    ∃ datum, fields.lookup field.name.toList = some datum ∧ datum.checkInteger = .ok n ∧
      field.Holds n := by
  rw [checkField, Checked.field_eq_ok]
  refine exists_congr fun datum => and_congr_right fun _ => ?_
  cases datum.checkInteger with
  | error issues => simp
  | ok m =>
    simp only [DateField.check_eq_ok, Except.ok.injEq]

/-- A record that makes a date has numbers within the bounds of one. -/
theorem withinBounds_of_ofFields (h : ofFields fields = .ok date) : WithinBounds date.numbers := by
  obtain ⟨-, hday, hmonth, hyear, hhour, hminute, hsecond⟩ := assemble_eq_ok.mp h
  have hholds {field : DateField} {n : Int} (h : checkField fields field = .ok n) :
      field.Holds n := by
    obtain ⟨_, -, -, hholds⟩ := checkField_eq_ok.mp h
    exact hholds
  exact ⟨hholds hday, hholds hmonth, hholds hyear, hholds hhour, hholds hminute, hholds hsecond⟩

/-- The record of a date, its numbers written in some way. -/
def toFields (write : Int → Datum) (date : HttpDate) : List (List Char × Datum) :=
  [("day_name".toList, .text date.dayName),
    ("day".toList, write date.numbers.day),
    ("month".toList, write date.numbers.month),
    ("year".toList, write date.numbers.year),
    ("hour".toList, write date.numbers.hour),
    ("minute".toList, write date.numbers.minute),
    ("second".toList, write date.numbers.second)]

/-- A date taken apart is made again, in whatever way its numbers are written. -/
theorem ofFields_toFields {write : Int → Datum}
    (hwrite : ∀ n, 0 ≤ n → (write n).checkInteger = .ok n)
    (h : WithinBounds date.numbers) : ofFields (date.toFields write) = .ok date := by
  have hcheck {field : DateField} {n : Int} (hleast : 0 ≤ field.least) (hholds : field.Holds n)
      (hlookup : (date.toFields write).lookup field.name.toList = some (write n)) :
      checkField (date.toFields write) field = .ok n :=
    checkField_eq_ok.mpr ⟨_, hlookup, hwrite n (hleast.trans hholds.1), hholds⟩
  refine assemble_eq_ok.mpr ⟨Checked.field_eq_ok.mpr ⟨.text date.dayName, rfl, rfl⟩,
    hcheck ?_ h.day rfl, hcheck ?_ h.month rfl, hcheck ?_ h.year rfl, hcheck ?_ h.hour rfl,
    hcheck ?_ h.minute rfl, hcheck ?_ h.second rfl⟩ <;> decide

/-- Digits will do for the numbers. -/
theorem ofFields_toFields_decimal (h : WithinBounds date.numbers) :
    ofFields (date.toFields fun n => .text (Text.decimal n.toNat)) = .ok date :=
  ofFields_toFields (fun n hn => by rw [Datum.checkInteger_decimal, Int.toNat_of_nonneg hn]) h

theorem blames_assemble {P : Issue → Prop} (hname : dayName.Blames P)
    (hnumber : ∀ field ∈ DateField.all, (number field).Blames P) :
    (assemble dayName number).Blames P := by
  simp only [DateField.all, List.forall_mem_cons, List.not_mem_nil, false_imp_iff, implies_true,
    and_true] at hnumber
  obtain ⟨hday, hmonth, hyear, hhour, hminute, hsecond⟩ := hnumber
  have hboth :=
    hname.both (hday.both (hmonth.both (hyear.both (hhour.both (hminute.both hsecond)))))
  rw [assemble]
  split
  · exact Checked.blames_ok
  · next issues heq =>
    rw [heq] at hboth
    intro more h
    cases h
    exact hboth _ rfl

/-- Where a record makes no date, each issue is with a field of a date and names it. -/
theorem blames_ofFields : (ofFields fields).Blames fun issue =>
    ∃ name ∈ "day_name" :: DateField.all.map DateField.name,
      issue.path.head? = some (.field name) := by
  refine blames_assemble ?_ fun field hfield => ?_
  · exact Checked.blames_field.imp fun issue h => ⟨_, List.mem_cons_self, h⟩
  · refine Checked.blames_field.imp fun issue h => ⟨_, List.mem_cons_of_mem _ ?_, h⟩
    exact List.mem_map_of_mem (f := DateField.name) hfield

end HttpDate

end Abnf
