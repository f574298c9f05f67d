import SigV4.Calendar
import Mathlib.Algebra.Order.BigOperators.Group.List
import Mathlib.Algebra.Ring.Int.Defs
import Mathlib.Data.List.Basic
import Mathlib.Order.Monotone.Basic

/-!
# Days are counted through the calendar

A day is taken apart into year, month and day by whole periods of years and then of months. The
calendar itself only says how long a month is, and so which date follows which one (`nextDate`); that
the two agree is shown in three steps:

* **`daysOf_dateOf`**: a date counts back to its day, over leap years and centuries.
* **`dateOf_daysOf`**: and a date that the calendar has is found again from its day.
* **`counted_iff`**: so the date of a day is the one that is reached from 1970-01-01 day by day,
  forward and backward.
-/

namespace SigV4.Calendar

variable {days year day : Int} {month : Nat} {date : Int × Nat × Int}

/-! ## What the calendar says -/

def monthLength (year : Int) (month : Nat) : Int :=
  if month = 2 then
    if year % 4 = 0 ∧ (year % 100 ≠ 0 ∨ year % 400 = 0) then 29 else 28
  else if month ∈ [4, 6, 9, 11] then 30 else 31

/-- The calendar has this date. -/
def IsDate : Int × Nat × Int → Prop
  | (year, month, day) => (1 ≤ month ∧ month ≤ 12) ∧ 1 ≤ day ∧ day ≤ monthLength year month

/-- The date of the next day. -/
def nextDate : Int × Nat × Int → Int × Nat × Int
  | (year, month, day) =>
    if day < monthLength year month then (year, month, day + 1)
    else if month < 12 then (year, month + 1, 1)
    else (year + 1, 1, 1)

/-- The date that is reached from 1970-01-01 in so many days. -/
inductive Counted : Int → Int × Nat × Int → Prop
  | epoch : Counted 0 (1970, 1, 1)
  | next {days : Int} {date : Int × Nat × Int} (h : Counted days date) : Counted (days + 1) (nextDate date)
  | previous {days : Int} {date : Int × Nat × Int} (hdate : IsDate date)
    (h : Counted (days + 1) (nextDate date)) : Counted days date

/-- Every month has 28 days and none has more than 31. -/
theorem monthLength_bounds (year : Int) (month : Nat) :
    28 ≤ monthLength year month ∧ monthLength year month ≤ 31 := by
  unfold monthLength
  split_ifs <;> omega

/-- The date behind a date is one. A new month starts on its first day, which every month has, and a new
year with January. -/
theorem isDate_nextDate (h : IsDate date) : IsDate (nextDate date) := by
  obtain ⟨year, month, day⟩ := date
  obtain ⟨⟨hmonth, hmonth'⟩, hday, hday'⟩ := h
  have hnext := monthLength_bounds year (month + 1)
  have hnewYear := monthLength_bounds (year + 1) 1
  rw [nextDate]
  split_ifs with hlast hend
  · exact ⟨⟨hmonth, hmonth'⟩, by omega, by omega⟩
  · exact ⟨⟨by omega, by omega⟩, by omega, by omega⟩
  · exact ⟨⟨by omega, by omega⟩, by omega, by omega⟩

/-! ## The tables of months and years

The source finds years and months by subtracting lengths, and these are the sums of the lengths. -/

/-- The rule of the leap years as conditions on the year, for arithmetic to work with. -/
theorem isLeapYear_iff :
    isLeapYear year = true ↔ year % 4 = 0 ∧ (year % 100 ≠ 0 ∨ year % 400 = 0) := by
  simp [isLeapYear]

/-- The table of a year has the lengths that the calendar gives its months. Only February depends on the
year, by whether it is a leap year. -/
theorem monthLengths_eq (year : Int) :
    monthLengths (isLeapYear year) = (List.range 12).map fun i => monthLength year (i + 1) := by
  have hleap : isLeapYear year = decide (year % 4 = 0 ∧ (year % 100 ≠ 0 ∨ year % 400 = 0)) := by
    rw [← Bool.coe_iff_coe, isLeapYear_iff, decide_eq_true_iff]
  rw [hleap]
  simp [monthLength, monthLengths, List.range, List.range.loop]

/-- A year has 365 days, and a leap year one more. -/
theorem sum_monthLengths (leap : Bool) : (monthLengths leap).sum = if leap then 366 else 365 := by
  cases leap <;> decide

/-- Months are counted from one and the table from zero. -/
theorem getElem?_monthLengths (year : Int) {month : Nat} (h : 1 ≤ month) (h' : month ≤ 12) :
    (monthLengths (isLeapYear year))[month - 1]? = some (monthLength year month) := by
  rw [monthLengths_eq, List.getElem?_map, List.getElem?_range (by omega), Option.map_some,
    Nat.sub_add_cancel h]

/-- The days in front of a month are those of the months that have passed. -/
theorem daysBeforeMonth_eq (leap : Bool) (month : Nat) :
    daysBeforeMonth leap month = ((monthLengths leap).take (month - 1)).sum :=
  List.sum_eq_foldl.symm

/-- A year is cut in front of one of its months: those that have passed, the month, and those to come.
Whatever is said of a day in the year is said of this cut. -/
theorem monthLengths_cut (year : Int) {month : Nat} (h : 1 ≤ month) (h' : month ≤ 12) :
    ∃ passed rest, monthLengths (isLeapYear year) = passed ++ monthLength year month :: rest
      ∧ month = 1 + passed.length ∧ daysBeforeMonth (isLeapYear year) month = passed.sum := by
  obtain ⟨hlt, hget⟩ := List.getElem?_eq_some_iff.mp (getElem?_monthLengths year h h')
  refine ⟨_, (monthLengths (isLeapYear year)).drop (month - 1 + 1), ?_, ?_,
    daysBeforeMonth_eq (isLeapYear year) month⟩
  · rw [← hget, ← List.drop_eq_getElem_cons hlt, List.take_append_drop]
  · rw [List.length_take]
    omega

/-- A month more has passed. It is also true of December, behind which the whole year has passed. -/
theorem daysBeforeMonth_succ (year : Int) {month : Nat} (h : 1 ≤ month) (h' : month ≤ 12) :
    daysBeforeMonth (isLeapYear year) (month + 1)
      = daysBeforeMonth (isLeapYear year) month + monthLength year month := by
  rw [daysBeforeMonth_eq, daysBeforeMonth_eq, Nat.sub_add_comm h, List.take_add_one,
    getElem?_monthLengths year h h', List.sum_append, Option.toList_some, List.sum_singleton]

/-- A year more has passed, of 365 days or 366. The counts of leap years, centuries and their fourth parts
each change where the rule says so. -/
theorem daysBeforeYear_succ (year : Int) :
    daysBeforeYear (year + 1) = daysBeforeYear year + (monthLengths (isLeapYear year)).sum := by
  rw [sum_monthLengths]
  simp only [daysBeforeYear]
  split
  next hleap =>
    have := isLeapYear_iff.mp hleap
    omega
  next hleap =>
    have := mt isLeapYear_iff.mpr hleap
    omega

/-- Years do not overlap: a year has passed in full when a later one starts. From year to year this is the
step above, and any two years are some steps apart. -/
theorem daysBeforeYear_add_le {other : Int} (h : year < other) :
    daysBeforeYear year + (monthLengths (isLeapYear year)).sum ≤ daysBeforeYear other := by
  have hmono : StrictMono daysBeforeYear := strictMono_int_of_lt_succ fun year => by
    rw [daysBeforeYear_succ, sum_monthLengths]
    split <;> omega
  rw [← daysBeforeYear_succ]
  exact hmono.monotone h

/-! ## From a day to its date

What is found is a date of the calendar, and counting goes on with the next one. -/

/-- The number of whole parts of `size` days, of which at most three count. The rest is shorter than a part,
unless it is the fourth one, which may be a day longer than the others. -/
theorem min_ediv_spec (size : Int) {r : Int} (hsize : 0 < size) (hr : 0 ≤ r) :
    size * min (r / size) 3 ≤ r ∧ 0 ≤ min (r / size) 3 ∧ min (r / size) 3 ≤ 3
      ∧ (r < size * min (r / size) 3 + size ∨ min (r / size) 3 = 3) := by
  have hlow : size * (r / size) ≤ r := Int.mul_ediv_self_le (Int.ne_of_gt hsize)
  have hhigh : r < size * (r / size) + size := Int.lt_mul_ediv_self_add hsize
  have hnonneg : 0 ≤ r / size := Int.ediv_nonneg hr (Int.le_of_lt hsize)
  rcases Int.le_total (r / size) 3 with hle | hle
  · rw [Int.min_eq_left hle]
    exact ⟨hlow, hnonneg, hle, .inl hhigh⟩
  · rw [Int.min_eq_right hle]
    exact ⟨Int.le_trans (Int.mul_le_mul_of_nonneg_left hle (Int.le_of_lt hsize)) hlow, by decide,
      Int.le_refl 3, .inr rfl⟩

/-- A day in periods of 400, 100, 4 and 1 years. The fourth year of four has a day more, unless it
ends one of the first three centuries of four. -/
theorem yearOf_periods (h : yearOf days = (year, day)) :
    ∃ n400 n100 n4 n1, year = 400 * n400 + 100 * n100 + 4 * n4 + n1 + 1
      ∧ days + epochDays = 146097 * n400 + 36524 * n100 + 1461 * n4 + 365 * n1 + day
      ∧ (0 ≤ n100 ∧ n100 ≤ 3) ∧ (0 ≤ n4 ∧ n4 ≤ 24) ∧ (0 ≤ n1 ∧ n1 ≤ 3)
      ∧ 0 ≤ day ∧ (day < 365 ∨ day = 365 ∧ n1 = 3 ∧ (n4 ≠ 24 ∨ n100 = 3)) := by
  unfold yearOf at h
  obtain ⟨hyear, hday⟩ := Prod.mk.inj h
  generalize days + epochDays = d at *
  have h400 : d = 146097 * (d / 146097) + d % 146097 ∧ 0 ≤ d % 146097 ∧ d % 146097 < 146097 := by
    omega
  generalize d / 146097 = n400, d % 146097 = r400 at *
  have h100 := min_ediv_spec 36524 (by decide) h400.2.1
  generalize min (r400 / 36524) 3 = n100 at *
  -- The fourth century has a day more, so its last day is past the end of a common one.
  have hr100 : 0 ≤ r400 - 36524 * n100 ∧ r400 - 36524 * n100 ≤ 36524 := by omega
  generalize hd100 : r400 - 36524 * n100 = r100 at *
  have h4 : r100 = 1461 * (r100 / 1461) + r100 % 1461 ∧ 0 ≤ r100 % 1461 ∧ r100 % 1461 < 1461 := by
    omega
  generalize r100 / 1461 = n4, r100 % 1461 = r4 at *
  have h1 := min_ediv_spec 365 (by decide) h4.2.1
  generalize min (r4 / 365) 3 = n1 at *
  exact ⟨n400, n100, n4, n1, by omega, by omega, by omega, by omega, by omega, by omega, by omega⟩

/-- The year and the day in it count back to the day, and the year has that day. The number of days in front
of a year counts leap years by divisions, and these come to the periods that were found. -/
theorem yearOf_spec (h : yearOf days = (year, day)) :
    daysBeforeYear year + day - epochDays = days ∧ 0 ≤ day
      ∧ day < (monthLengths (isLeapYear year)).sum := by
  obtain ⟨n400, n100, n4, n1, hyear, hdays, hn100, hn4, hn1, hfirst, hlast⟩ := yearOf_periods h
  refine ⟨?_, hfirst, ?_⟩
  · -- The divisions in question, in terms of the periods.
    have hby4 : (year - 1) / 4 = 100 * n400 + 25 * n100 + n4 := by omega
    have hby100 : (year - 1) / 100 = 4 * n400 + n100 := by omega
    have hby400 : (year - 1) / 400 = n400 := by omega
    simp only [daysBeforeYear, hby4, hby100, hby400]
    omega
  · rw [sum_monthLengths]
    rcases hlast with hlast | ⟨hlast, hn1', hleap⟩
    · split
      · omega
      · exact hlast
    · -- The day past 365 is there in leap years only, and this year is one.
      have hby4 : year % 4 = 0 := by omega
      have hcentury : year % 100 ≠ 0 ∨ year % 400 = 0 := by
        by_cases hn4' : n4 = 24
        · right
          omega
        · left
          omega
      rw [if_pos (isLeapYear_iff.mpr ⟨hby4, hcentury⟩), hlast]
      decide

/-- The months that have passed and the month that the day is in. Induction on the lengths: a day past the
end of the first month is looked for behind it, counted from there. -/
theorem monthOf_spec (month : Nat) {lengths : List Int} (hfirst : 0 ≤ day)
    (hlast : day < lengths.sum) :
    ∃ passed length rest, lengths = passed ++ length :: rest
      ∧ monthOf month day lengths = (month + passed.length, day - passed.sum)
      ∧ 0 ≤ day - passed.sum ∧ day - passed.sum < length := by
  induction lengths generalizing month day with
  | nil =>
    rw [List.sum_nil] at hlast
    omega
  | cons length lengths ih =>
    rw [List.sum_cons] at hlast
    rw [monthOf]
    -- The day is in the first month, or it is a day of the rest counted from the second one on.
    split
    next hday => exact ⟨[], length, lengths, rfl, by simp, by simpa using hfirst, by simpa using hday⟩
    next hday =>
      obtain ⟨passed, other, rest, rfl, hmonth, hlow, hhigh⟩ :=
        ih (month + 1) (show 0 ≤ day - length by omega) (by omega)
      refine ⟨length :: passed, other, rest, rfl, ?_, ?_, ?_⟩
      · rw [hmonth, List.length_cons, List.sum_cons]
        exact Prod.ext (by dsimp only; omega) (by dsimp only; omega)
      · rw [List.sum_cons]
        omega
      · rw [List.sum_cons]
        omega

/-- **A date counts back to its day**, and the calendar has it. The year is found first and the month in it
then; each comes with the cut at which it was found, and the count of days is the sum over what lies in
front of the cuts. -/
theorem daysOf_dateOf (h : dateOf days = (year, month, day)) :
    daysOf year month day = days ∧ IsDate (year, month, day) := by
  unfold dateOf at h
  rcases hyear : yearOf days with ⟨inYear, dayOfYear⟩
  obtain ⟨hdays, hfirst, hlast⟩ := yearOf_spec hyear
  obtain ⟨passed, length, rest, hlengths, hmonth, hlow, hhigh⟩ :=
    monthOf_spec 1 hfirst hlast
  rw [hyear] at h
  dsimp only at h
  rw [hmonth] at h
  obtain ⟨rfl, hdate⟩ := Prod.mk.inj h
  obtain ⟨rfl, rfl⟩ := Prod.mk.inj hdate
  have hcount : passed.length + (rest.length + 1) = 12 := by
    have hall := congrArg List.length hlengths
    rw [List.length_append, List.length_cons] at hall
    exact hall.symm
  -- Both cuts have the same months in front, so the length that was found is that of the month.
  obtain ⟨before, after, hcut, hbefore, hsum⟩ :=
    monthLengths_cut inYear (show 1 ≤ 1 + passed.length by omega) (by omega)
  obtain ⟨rfl, htail⟩ := List.append_inj (hlengths.symm.trans hcut) (by omega)
  obtain ⟨rfl, -⟩ := List.cons.inj htail
  refine ⟨?_, ⟨by omega, by omega⟩, by omega, ?_⟩
  · rw [daysOf, hsum]
    omega
  · dsimp only
    omega

/-! ## From a date to its day -/

/-- The year of a day is the only one that has the day: in an earlier year it would be past the end, and in
a later one in front of the start. -/
theorem yearOf_eq (h : 0 ≤ day) (h' : day < (monthLengths (isLeapYear year)).sum) :
    yearOf (daysBeforeYear year + day - epochDays) = (year, day) := by
  rcases hyear : yearOf (daysBeforeYear year + day - epochDays) with ⟨found, dayOfYear⟩
  obtain ⟨hdays, hfirst, hlast⟩ := yearOf_spec hyear
  rcases lt_trichotomy found year with hlt | rfl | hgt
  · have := daysBeforeYear_add_le hlt
    omega
  · rw [show dayOfYear = day by omega]
  · have := daysBeforeYear_add_le hgt
    omega

/-- A month is found behind those that have passed. No month has a negative length, so none of these is
taken for it. -/
theorem monthOf_append (month : Nat) {passed rest : List Int} {length : Int}
    (hpassed : ∀ length ∈ passed, 0 ≤ length) (h : 0 ≤ day) (h' : day < length) :
    monthOf month (passed.sum + day) (passed ++ length :: rest) = (month + passed.length, day) := by
  induction passed generalizing month with
  | nil => simp [monthOf, h']
  | cons first passed ih =>
    have hpassed' : ∀ length ∈ passed, 0 ≤ length := fun length hlength =>
      hpassed length (List.mem_cons_of_mem first hlength)
    have hsum := List.sum_nonneg hpassed'
    rw [List.sum_cons, List.cons_append, monthOf, if_neg (by omega),
      show first + passed.sum + day - first = passed.sum + day by omega, ih (month + 1) hpassed',
      List.length_cons]
    exact Prod.ext (by dsimp only; omega) rfl

/-- **A date that the calendar has is found again from its day.** The year is cut in front of the month, so
the day in the year is behind all months that have passed and within this one. -/
theorem dateOf_daysOf (h : IsDate (year, month, day)) :
    dateOf (daysOf year month day) = (year, month, day) := by
  obtain ⟨⟨hmonth, hmonth'⟩, hday, hday'⟩ := h
  obtain ⟨passed, rest, hcut, hcount, hbefore⟩ := monthLengths_cut year hmonth hmonth'
  have hnonneg : ∀ length ∈ monthLengths (isLeapYear year), 0 ≤ length := by
    cases isLeapYear year <;> decide
  rw [hcut] at hnonneg
  have hpassed : ∀ length ∈ passed, 0 ≤ length := fun length hlength =>
    hnonneg length (List.mem_append_left _ hlength)
  have hrest : ∀ length ∈ rest, 0 ≤ length := fun length hlength =>
    hnonneg length (List.mem_append_right _ (List.mem_cons_of_mem _ hlength))
  have hsum : (monthLengths (isLeapYear year)).sum
      = passed.sum + (monthLength year month + rest.sum) := by
    rw [hcut, List.sum_append, List.sum_cons]
  -- So the day is one of its year.
  have hpassed' := List.sum_nonneg hpassed
  have hrest' := List.sum_nonneg hrest
  rw [daysOf, hbefore, Int.add_assoc, dateOf, yearOf_eq (by omega) (by omega)]
  dsimp only
  rw [hcut, monthOf_append 1 hpassed (by omega) (by omega), ← hcount, Int.sub_add_cancel]

/-- The next date is a day later. Within a month the day is counted up; a month or a year that is over has
passed in full, which is what the tables are summed for. -/
theorem daysOf_nextDate {nextYear nextDay : Int} {nextMonth : Nat} (h : IsDate (year, month, day))
    (hnext : nextDate (year, month, day) = (nextYear, nextMonth, nextDay)) :
    daysOf nextYear nextMonth nextDay = daysOf year month day + 1 := by
  obtain ⟨⟨hmonth, hmonth'⟩, hday, hday'⟩ := h
  rw [nextDate] at hnext
  split_ifs at hnext with hlast hend
  · cases hnext
    simp only [daysOf]
    omega
  · cases hnext
    simp only [daysOf, daysBeforeMonth_succ year hmonth hmonth']
    omega
  · -- December is over, and with it all days of the year.
    cases hnext
    have hdecember : month = 12 := by omega
    subst hdecember
    have hall : daysBeforeMonth (isLeapYear year) 13 = (monthLengths (isLeapYear year)).sum :=
      daysBeforeMonth_eq (isLeapYear year) 13
    have hnone : daysBeforeMonth (isLeapYear (year + 1)) 1 = 0 := rfl
    rw [daysBeforeMonth_succ year hmonth hmonth'] at hall
    simp only [daysOf, daysBeforeYear_succ, hnone]
    omega

/-- **The date of the next day is the next date.** The next date stands for the next day, and it is a date,
so it is found from that day. -/
theorem dateOf_succ (days : Int) : dateOf (days + 1) = nextDate (dateOf days) := by
  rcases hdate : dateOf days with ⟨year, month, day⟩
  obtain ⟨hdays, hexists⟩ := daysOf_dateOf hdate
  rcases hnext : nextDate (year, month, day) with ⟨nextYear, nextMonth, nextDay⟩
  rw [← hdays, ← daysOf_nextDate hexists hnext]
  exact dateOf_daysOf (hnext ▸ isDate_nextDate hexists)

/-- A date that is reached day by day is the date of that day. Induction on how it was reached, forward and
backward. -/
theorem dateOf_of_counted (h : Counted days date) : dateOf days = date := by
  induction h with
  | epoch => rfl
  | @next days date _ ih => rw [dateOf_succ, ih]
  | @previous days date hdate _ ih =>
    -- The next date stands for one day more, so this one can stand for no other day.
    obtain ⟨year, month, day⟩ := date
    rcases hnext : nextDate (year, month, day) with ⟨nextYear, nextMonth, nextDay⟩
    have hdays := (daysOf_dateOf (ih.trans hnext)).1
    rw [daysOf_nextDate hdate hnext] at hdays
    rw [← show daysOf year month day = days by omega]
    exact dateOf_daysOf hdate

/-- The date of every day is reached day by day from 1970. Induction on the day, upward by the rule for the
next date and downward by the rule for the previous one. -/
theorem counted_dateOf (days : Int) : Counted days (dateOf days) := by
  induction days using Int.induction_on with
  | zero => exact .epoch
  | succ days ih =>
    rw [dateOf_succ]
    exact ih.next
  | pred days ih =>
    rcases hdate : dateOf (-days - 1) with ⟨year, month, day⟩
    refine .previous (daysOf_dateOf hdate).2 ?_
    rw [← hdate, ← dateOf_succ, Int.sub_add_cancel]
    exact ih

/-- **The date of a day is the one that is reached from 1970-01-01 day by day.** `dateOf` computes year,
month and day at once, and counting is what it is measured by. -/
theorem counted_iff : Counted days date ↔ dateOf days = date :=
  ⟨dateOf_of_counted, fun h => h ▸ counted_dateOf days⟩

end SigV4.Calendar
