/-!
# The calendar

The proleptic Gregorian calendar in both directions: days since 1970-01-01 from year, month and
day, and back.
-/

namespace SigV4.Calendar

def isLeapYear (year : Int) : Bool := year % 4 == 0 && (year % 100 != 0 || year % 400 == 0)

/-- Days from the first of January of year 1 to that of `year`. -/
def daysBeforeYear (year : Int) : Int :=
  let y := year - 1
  365 * y + y / 4 - y / 100 + y / 400

def monthLengths (leap : Bool) : List Int :=
  [31, if leap then 29 else 28, 31, 30, 31, 30, 31, 31, 30, 31, 30, 31]

/-- Days of the months in front of `month`, which counts from one. -/
def daysBeforeMonth (leap : Bool) (month : Nat) : Int :=
  ((monthLengths leap).take (month - 1)).foldl (· + ·) 0

/-- The year 1970 starts this many days after the year 1. -/
def epochDays : Int := 719162

/-- Days since 1970-01-01. A day past the end of its month counts on into the next month. -/
def daysOf (year : Int) (month : Nat) (day : Int) : Int :=
  daysBeforeYear year + daysBeforeMonth (isLeapYear year) month + (day - 1) - epochDays

/-- The year that a day falls in, and its place in that year, from zero. Whole periods of 400, 100,
4 and 1 years are taken off in turn; the last day of a period belongs to its last part. -/
def yearOf (days : Int) : Int × Int :=
  let d := days + epochDays
  let n400 := d / 146097
  let d := d % 146097
  let n100 := min (d / 36524) 3
  let d := d - 36524 * n100
  let n4 := d / 1461
  let d := d % 1461
  let n1 := min (d / 365) 3
  (400 * n400 + 100 * n100 + 4 * n4 + n1 + 1, d - 365 * n1)

/-- Finds the month of a day of the year among the remaining months, the first of which is `month`. -/
def monthOf (month : Nat) (day : Int) : List Int → Nat × Int
  | [] => (month, day)
  | length :: rest => if day < length then (month, day) else monthOf (month + 1) (day - length) rest

/-- Year, month and day of a day since 1970-01-01; month and day count from one. -/
def dateOf (days : Int) : Int × Nat × Int :=
  let (year, dayOfYear) := yearOf days
  let (month, day) := monthOf 1 dayOfYear (monthLengths (isLeapYear year))
  (year, month, day + 1)

end SigV4.Calendar
