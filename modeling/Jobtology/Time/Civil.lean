import Mathlib.Data.Int.Basic
import Mathlib.Tactic.Linarith

/-!
# Proleptic Gregorian dates and ISO weeks

Library for clock readings on one linear scale. Instants and local readings count microseconds
from the midnight that starts 1 January of year 1 (in UTC, or on the local clock); a date is its
day ordinal, that day being number 1, a Monday. All three are unbounded integers: the range
limits of calendar types are not part of the library.
-/

namespace Jobtology.Time

/-- Microseconds of one hour. -/
abbrev hour : Int := 3600000000

/-- Microseconds of one day. -/
abbrev day : Int := 86400000000

/-- Date shown by a clock reading. -/
def dateOf (w : Int) : Int := w / day + 1

/-- Hour of the day shown by a clock reading, 0 to 23. -/
def hourOf (w : Int) : Int := w % day / hour

/-- The reading of midnight at the start of a date. -/
def midnight (d : Int) : Int := (d - 1) * day

/-- Days from Monday, 0 to 6. -/
def weekday (d : Int) : Int := (d + 6) % 7

/-- ISO weekday, Monday is 1 and Sunday is 7. -/
def isoWeekday (d : Int) : Int := weekday d + 1

/-- Number of days before 1 January of a year. -/
def daysBeforeYear (year : Int) : Int :=
  let y := year - 1
  y * 365 + y / 4 - y / 100 + y / 400

/-- Gregorian year of a day ordinal, by the 400, 100, 4 and 1 year cycles. -/
def yearOf (d : Int) : Int :=
  let n := d - 1
  let n400 := n / 146097
  let n100 := n % 146097 / 36524
  let n4 := n % 146097 % 36524 / 1461
  let n1 := n % 146097 % 36524 % 1461 / 365
  let year := n400 * 400 + n100 * 100 + n4 * 4 + n1 + 1
  if n1 = 4 ∨ n100 = 4 then year - 1 else year

/-- Ordinal of the Monday that starts ISO week 1 of a year. -/
def isoWeek1Monday (year : Int) : Int :=
  let firstDay := daysBeforeYear year + 1
  let firstWeekday := (firstDay + 6) % 7
  let week1Monday := firstDay - firstWeekday
  if firstWeekday > 3 then week1Monday + 7 else week1Monday

/-- ISO year and week number of a date. -/
def isoCalendar (d : Int) : Int × Int :=
  let year := yearOf d
  let week := (d - isoWeek1Monday year) / 7
  if week < 0 then
    (year - 1, (d - isoWeek1Monday (year - 1)) / 7 + 1)
  else if week ≥ 52 ∧ d ≥ isoWeek1Monday (year + 1) then (year + 1, 1)
  else (year, week + 1)

example : isoCalendar 735234 = (2014, 1) := by decide

/-- Month lengths of a year. -/
def monthLengths (year : Int) : List Int :=
  let leap := year % 4 = 0 ∧ (year % 100 ≠ 0 ∨ year % 400 = 0)
  [31, if leap then 29 else 28, 31, 30, 31, 30, 31, 31, 30, 31, 30, 31]

/-- Month and day of the month of a day of the year, counted from `month` on. -/
def monthAndDay (month dayOfYear : Int) : List Int → Int × Int
  | [] => (month, dayOfYear)
  | length :: rest =>
    if dayOfYear ≤ length then (month, dayOfYear)
    else monthAndDay (month + 1) (dayOfYear - length) rest

/-- A number written with at least so many digits. -/
def padded (width : Nat) (n : Int) : String :=
  let digits := toString n
  String.ofList (List.replicate (width - digits.length) '0') ++ digits

/-- A date written as year, month and day. -/
def isoFormat (d : Int) : String :=
  let year := yearOf d
  let (month, dayOfMonth) := monthAndDay 1 (d - daysBeforeYear year) (monthLengths year)
  padded 4 year ++ "-" ++ padded 2 month ++ "-" ++ padded 2 dayOfMonth

example : isoFormat 735234 = "2014-01-01" := by decide

/-- A reading before a midnight shows an earlier date. -/
theorem dateOf_lt_iff (w : Int) (d : Int) : dateOf w < d ↔ w < midnight d := by
  simp only [dateOf, midnight, day]
  omega

end Jobtology.Time
