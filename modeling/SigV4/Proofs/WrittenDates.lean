import SigV4.Proofs.Dates

/-!
# Timestamps in three written forms

The fields of an instant are written in the form that is signed, in that of ISO 8601 and in that of
RFC 1123. All three have digits at fixed places.

* **`parseAmzDate_basic`, `parseIso_iso`, `parseHttpDate_http`**: what is written in a form is read back.
* **`parseAmzDate_amzDate`**: so is a date that is signed if its year has four digits, and else it is
  refused.
* **`dateNumber_lt_dateNumber`**: the digits of a date grow from day to day, in whichever way a day ends.
* **`forms_invert`**: so over the whole range of a clock that counts nanoseconds in 64 bits, writing and
  reading invert each other and keep the order.
-/

namespace SigV4

/-! ## The three forms -/

namespace CivilTime

open Timestamp

variable {c : CivilTime} {seconds : Int}

/-- The form that is signed, `yyyyMMddTHHmmssZ`. -/
def basic (c : CivilTime) : Bytes :=
  digits 4 c.year.toNat ++ digits 2 c.month ++ digits 2 c.day.toNat ++ ascii "T"
    ++ digits 2 c.hour.toNat ++ digits 2 c.minute.toNat ++ digits 2 c.second.toNat ++ ascii "Z"

/-- The form of ISO 8601, `yyyy-MM-ddTHH:mm:ssZ`. -/
def iso (c : CivilTime) : Bytes :=
  digits 4 c.year.toNat ++ ascii "-" ++ digits 2 c.month ++ ascii "-" ++ digits 2 c.day.toNat
    ++ ascii "T" ++ digits 2 c.hour.toNat ++ ascii ":" ++ digits 2 c.minute.toNat ++ ascii ":"
    ++ digits 2 c.second.toNat ++ ascii "Z"

/-- The three letters of a month. No other number has a name. -/
def monthName : Nat → Bytes
  | 1 => ascii "Jan"
  | 2 => ascii "Feb"
  | 3 => ascii "Mar"
  | 4 => ascii "Apr"
  | 5 => ascii "May"
  | 6 => ascii "Jun"
  | 7 => ascii "Jul"
  | 8 => ascii "Aug"
  | 9 => ascii "Sep"
  | 10 => ascii "Oct"
  | 11 => ascii "Nov"
  | 12 => ascii "Dec"
  | _ => []

/-- The form of RFC 1123, `Fri, 16 Oct 2020 19:56:00 GMT`. -/
def http (dayName : Bytes) (c : CivilTime) : Bytes :=
  dayName ++ ascii ", " ++ digits 2 c.day.toNat ++ ascii " " ++ monthName c.month ++ ascii " "
    ++ digits 4 c.year.toNat ++ ascii " " ++ digits 2 c.hour.toNat ++ ascii ":"
    ++ digits 2 c.minute.toNat ++ ascii ":" ++ digits 2 c.second.toNat ++ ascii " GMT"

/-- Each field is in its own range, and the year has four digits. A month may have fewer days, and only
few minutes have a second 60. -/
structure Bounded (c : CivilTime) : Prop where
  year : 0 ≤ c.year ∧ c.year ≤ 9999
  month : 1 ≤ c.month ∧ c.month ≤ 12
  day : 1 ≤ c.day ∧ c.day ≤ 31
  hour : 0 ≤ c.hour ∧ c.hour ≤ 23
  minute : 0 ≤ c.minute ∧ c.minute ≤ 59
  second : 0 ≤ c.second ∧ c.second ≤ 60

/-- Each field fits into its digits. -/
theorem Shows.fits (h : c.Shows seconds) : c.month < 10 ^ 2 ∧ (0 ≤ c.day ∧ c.day.toNat < 10 ^ 2)
    ∧ c.hour.toNat < 10 ^ 2 ∧ c.minute.toNat < 10 ^ 2 ∧ c.second.toNat < 10 ^ 2 := by
  have hrange := h.toInstant.2
  simp only [inRange, Bool.and_eq_true, decide_eq_true_eq] at hrange
  omega

/-- The fields of an instant are bounded if its year has four digits. -/
theorem Shows.bounded (h : c.Shows seconds) (hyear : 0 ≤ c.year ∧ c.year ≤ 9999) : c.Bounded := by
  have hrange := h.toInstant.2
  simp only [inRange, Bool.and_eq_true, decide_eq_true_eq] at hrange
  have hsecond := h.second
  exact ⟨hyear, by omega, by omega, h.hour, h.minute, by omega⟩

end CivilTime

namespace Timestamp

open CivilTime

/-! ## Reading -/

variable {c : CivilTime} {seconds : Int} {year month day hour minute second : Bytes}

/-- The fields of a date in basic form stand at fixed places. -/
theorem parseAmzDate_append (hyear : year.length = 4) (hmonth : month.length = 2)
    (hday : day.length = 2) (hhour : hour.length = 2) (hminute : minute.length = 2)
    (hsecond : second.length = 2) :
    let text := year ++ month ++ day ++ ascii "T" ++ hour ++ minute ++ second ++ ascii "Z"
    parseAmzDate text = orInvalid text (civil? (number? year) (number? month) (number? day)
      (number? hour) (number? minute) (number? second)) := by
  obtain ⟨_, _, rfl⟩ := List.length_eq_two.mp hmonth
  obtain ⟨_, _, rfl⟩ := List.length_eq_two.mp hday
  obtain ⟨_, _, rfl⟩ := List.length_eq_two.mp hhour
  obtain ⟨_, _, rfl⟩ := List.length_eq_two.mp hminute
  obtain ⟨_, _, rfl⟩ := List.length_eq_two.mp hsecond
  match year, hyear with
  | [_, _, _, _], _ => rfl

/-- The fields of a date in ISO form stand at fixed places too. -/
theorem parseIso_append (hyear : year.length = 4) (hmonth : month.length = 2) (hday : day.length = 2)
    (hhour : hour.length = 2) (hminute : minute.length = 2) (hsecond : second.length = 2) :
    let text := year ++ ascii "-" ++ month ++ ascii "-" ++ day ++ ascii "T" ++ hour ++ ascii ":"
      ++ minute ++ ascii ":" ++ second ++ ascii "Z"
    parseIso text = orInvalid text (civil? (number? year) (number? month) (number? day)
      (number? hour) (number? minute) (number? second)) := by
  obtain ⟨_, _, rfl⟩ := List.length_eq_two.mp hmonth
  obtain ⟨_, _, rfl⟩ := List.length_eq_two.mp hday
  obtain ⟨_, _, rfl⟩ := List.length_eq_two.mp hhour
  obtain ⟨_, _, rfl⟩ := List.length_eq_two.mp hminute
  obtain ⟨_, _, rfl⟩ := List.length_eq_two.mp hsecond
  match year, hyear with
  | [_, _, _, _], _ =>
    -- With the marks as bytes, the places of the text are found by computation.
    have hmarks : ascii "-" = [45] ∧ ascii "T" = [84] ∧ ascii ":" = [58] ∧ ascii "Z" = [90] :=
      ⟨rfl, rfl, rfl, rfl⟩
    simp only [hmarks, List.cons_append, List.nil_append]
    rfl

/-- So do those of a date in the form of RFC 1123, where the month is a name. -/
theorem parseHttpDate_append {dayName name : Bytes} (hdayName : dayName.length = 3)
    (hname : name.length = 3) (hyear : year.length = 4) (hday : day.length = 2)
    (hhour : hour.length = 2) (hminute : minute.length = 2) (hsecond : second.length = 2) :
    let text := dayName ++ ascii ", " ++ day ++ ascii " " ++ name ++ ascii " " ++ year ++ ascii " "
      ++ hour ++ ascii ":" ++ minute ++ ascii ":" ++ second ++ ascii " GMT"
    parseHttpDate text = match monthOfName? name with
      | none => .error (.invalidInput (.httpDate text))
      | some number => orInvalid text (civil? (number? year) (some number) (number? day)
        (number? hour) (number? minute) (number? second)) := by
  obtain ⟨_, _, rfl⟩ := List.length_eq_two.mp hday
  obtain ⟨_, _, rfl⟩ := List.length_eq_two.mp hhour
  obtain ⟨_, _, rfl⟩ := List.length_eq_two.mp hminute
  obtain ⟨_, _, rfl⟩ := List.length_eq_two.mp hsecond
  obtain ⟨_, _, _, rfl⟩ := List.length_eq_three.mp hdayName
  obtain ⟨_, _, _, rfl⟩ := List.length_eq_three.mp hname
  match year, hyear with
  | [_, _, _, _], _ =>
    have hmarks : ascii ", " = [44, 32] ∧ ascii " " = [32] ∧ ascii ":" = [58]
        ∧ ascii " GMT" = [32, 71, 77, 84] := ⟨rfl, rfl, rfl, rfl⟩
    simp only [parseHttpDate, hmarks, List.cons_append, List.nil_append]
    rw [if_pos (by rfl)]
    rfl

/-- Bounded fields pass the check of the readers. -/
theorem civil?_of_bounded (h : c.Bounded) :
    civil? (some c.year.toNat) (some c.month) (some c.day.toNat) (some c.hour.toNat)
      (some c.minute.toNat) (some c.second.toNat) = some c := by
  obtain ⟨hyear, hmonth, hday, hhour, hminute, hsecond⟩ := h
  have hrange : c.inRange = true := by
    simp only [inRange, Bool.and_eq_true, decide_eq_true_eq]
    omega
  have hsame : (⟨c.year.toNat, c.month, c.day.toNat, c.hour.toNat, c.minute.toNat,
      c.second.toNat⟩ : CivilTime) = c := by
    rw [Int.toNat_of_nonneg hyear.1, Int.toNat_of_nonneg (by omega), Int.toNat_of_nonneg hhour.1,
      Int.toNat_of_nonneg hminute.1, Int.toNat_of_nonneg hsecond.1]
  simp only [civil?, bind, Option.bind, hsame, hrange, if_true]

/-- The digits of the fields are read as the instant that they stand for. -/
theorem orInvalid_digits (h : c.Bounded) (text : Bytes) :
    orInvalid text (civil? (number? (digits 4 c.year.toNat)) (some c.month)
        (number? (digits 2 c.day.toNat)) (number? (digits 2 c.hour.toNat))
        (number? (digits 2 c.minute.toNat)) (number? (digits 2 c.second.toNat)))
      = .ok c.toInstant := by
  obtain ⟨hyear, hmonth, hday, hhour, hminute, hsecond⟩ := h
  rw [number?_digits (by omega), number?_digits (by omega), number?_digits (by omega),
    number?_digits (by omega), number?_digits (by omega),
    civil?_of_bounded ⟨hyear, hmonth, hday, hhour, hminute, hsecond⟩]
  rfl

end Timestamp

namespace CivilTime.Bounded

open Timestamp

variable {c : CivilTime}

/-- What is written in basic form is read back. -/
theorem parseAmzDate_basic (h : c.Bounded) : parseAmzDate c.basic = .ok c.toInstant := by
  have hmonth : c.month < 10 ^ 2 := Nat.lt_of_le_of_lt h.month.2 (by decide)
  rw [basic, parseAmzDate_append (by simp) (by simp) (by simp) (by simp) (by simp) (by simp),
    number?_digits hmonth]
  exact orInvalid_digits h _

/-- What is written in ISO form is read back. -/
theorem parseIso_iso (h : c.Bounded) : parseIso c.iso = .ok c.toInstant := by
  have hmonth : c.month < 10 ^ 2 := Nat.lt_of_le_of_lt h.month.2 (by decide)
  rw [iso, parseIso_append (by simp) (by simp) (by simp) (by simp) (by simp) (by simp),
    number?_digits hmonth]
  exact orInvalid_digits h _

/-- The name of a month is read as its number. -/
theorem monthName_read (h : c.Bounded) :
    (monthName c.month).length = 3 ∧ monthOfName? (monthName c.month) = some c.month := by
  have hnames : ∀ i : Fin 12, (monthName (i.val + 1)).length = 3
      ∧ monthOfName? (monthName (i.val + 1)) = some (i.val + 1) := by decide
  obtain ⟨hmonth, hmonth'⟩ := h.month
  have hname := hnames ⟨c.month - 1, by omega⟩
  dsimp only at hname
  rwa [Nat.sub_add_cancel hmonth] at hname

/-- The name of the day is not read. -/
theorem parseHttpDate_http (h : c.Bounded) {dayName : Bytes} (hdayName : dayName.length = 3) :
    parseHttpDate (c.http dayName) = .ok c.toInstant := by
  obtain ⟨hname, hnumber⟩ := h.monthName_read
  rw [http, parseHttpDate_append hdayName hname (by simp) (by simp) (by simp) (by simp) (by simp),
    hnumber]
  exact orInvalid_digits h _

end CivilTime.Bounded

namespace Timestamp

open CivilTime

variable {c : CivilTime} {seconds : Int}

/-- The basic form of an instant's fields is read as its whole seconds. -/
theorem parseAmzDate_basic (h : c.Shows seconds) (hyear : 0 ≤ c.year ∧ c.year ≤ 9999) :
    parseAmzDate c.basic = .ok (.ofSeconds seconds) :=
  (h.bounded hyear).parseAmzDate_basic.trans (congrArg Except.ok h.toInstant.1)

/-- The ISO form of its fields is read alike. -/
theorem parseIso_iso (h : c.Shows seconds) (hyear : 0 ≤ c.year ∧ c.year ≤ 9999) :
    parseIso c.iso = .ok (.ofSeconds seconds) :=
  (h.bounded hyear).parseIso_iso.trans (congrArg Except.ok h.toInstant.1)

/-- The form of RFC 1123 is read alike, whatever name the day is given. -/
theorem parseHttpDate_http (h : c.Shows seconds) (hyear : 0 ≤ c.year ∧ c.year ≤ 9999)
    {dayName : Bytes} (hdayName : dayName.length = 3) :
    parseHttpDate (c.http dayName) = .ok (.ofSeconds seconds) :=
  ((h.bounded hyear).parseHttpDate_http hdayName).trans (congrArg Except.ok h.toInstant.1)

/-! ## Signed dates -/

/-- All fields but the year fit into their digits. -/
theorem amzDate_eq_append {t : Instant} (h : c.Shows t.seconds) :
    amzDate t = padded 4 c.year ++ digits 2 c.month ++ digits 2 c.day.toNat ++ ascii "T"
      ++ digits 2 c.hour.toNat ++ digits 2 c.minute.toNat ++ digits 2 c.second.toNat ++ ascii "Z" := by
  obtain ⟨hmonth, ⟨hday, hday'⟩, hhour, hminute, hsecond⟩ := h.fits
  rw [amzDate, ← shows_iff.mp h, ← padded_eq_digits hmonth, ← padded_eq_digits hday',
    ← padded_eq_digits hhour, ← padded_eq_digits hminute, ← padded_eq_digits hsecond,
    Int.toNat_of_nonneg hday, Int.toNat_of_nonneg h.hour.1, Int.toNat_of_nonneg h.minute.1,
    Int.toNat_of_nonneg h.second.1]

/-- What is signed is the basic form, if the year fits into its digits. -/
theorem amzDate_eq_basic {t : Instant} (h : c.Shows t.seconds) (hyear : 0 ≤ c.year ∧ c.year ≤ 9999) :
    amzDate t = c.basic := by
  have hyear' : c.year.toNat < 10 ^ 4 := by omega
  rw [amzDate_eq_append h, basic, ← padded_eq_digits hyear', Int.toNat_of_nonneg hyear.1]

/-- **A date is read as it was written**, as long as its year has four digits. Other years are written with
a sign or with more digits, and each of these texts is refused for its length or for a byte that is no
digit. -/
theorem parseAmzDate_amzDate (t : Instant) :
    parseAmzDate (amzDate t)
      = if 0 ≤ (CivilTime.ofInstant t).year ∧ (CivilTime.ofInstant t).year ≤ 9999
        then .ok t.truncateToSeconds else .error (.invalidInput (.timestamp (amzDate t))) := by
  have hshows := shows_ofInstant t
  split
  next hyear =>
    rw [amzDate_eq_basic hshows hyear]
    exact parseAmzDate_basic hshows hyear
  next hyear =>
    rw [amzDate_eq_append hshows]
    by_cases hfour : (padded 4 (ofInstant t).year).length = 4
    · -- Of four bytes one is a minus sign, which is no digit.
      have hsign : (ofInstant t).year < 0 := by
        refine Int.not_le.mp fun hsign => hyear ⟨hsign, ?_⟩
        have hlast := (length_padded (by decide) hsign).mp hfour
        omega
      rw [parseAmzDate_append hfour (by simp) (by simp) (by simp) (by simp) (by simp),
        number?_eq_none_of_mem (minus_mem_padded hsign) (by decide)]
      rfl
    · -- All other fields have their width, so the text is too long.
      rw [parseAmzDate, if_neg]
      rw [Bool.and_eq_true, decide_eq_true_eq]
      rintro ⟨hlong, -⟩
      have hmarks : (ascii "T").length = 1 ∧ (ascii "Z").length = 1 := ⟨rfl, rfl⟩
      simp only [List.length_append, length_digits, hmarks] at hlong
      omega

/-! ## The order of dates -/

/-- The digits of a date as one number. -/
def dateNumber : Int × Nat × Int → Int
  | (year, month, day) => 10000 * year + 100 * month + day

/-- The digits of the time of day, which counts in seconds. -/
def timeNumber (second : Int) : Int :=
  10000 * (second / 3600) + 100 * (second / 60 % 60) + second % 60

/-- The same with each term growing with the seconds, so that a later time has a greater number. -/
theorem timeNumber_eq (second : Int) :
    timeNumber second = 4000 * (second / 3600) + 40 * (second / 60) + second := by
  have hhour : second / 60 / 60 = second / 3600 := by omega
  simp only [timeNumber]
  omega

/-- The next date has the greater number, in each of the three ways in which a day can end. -/
theorem dateNumber_lt_nextDate {date : Int × Nat × Int} (h : Calendar.IsDate date) :
    dateNumber date < dateNumber (Calendar.nextDate date) := by
  obtain ⟨year, month, day⟩ := date
  obtain ⟨⟨hmonth, hmonth'⟩, hday, hday'⟩ := h
  have hlength := (Calendar.monthLength_bounds year month).2
  rw [Calendar.nextDate]
  -- A day ends within its month, at the end of the month, or at the end of the year.
  split_ifs with hlast hend
  · simp only [dateNumber]
    omega
  · simp only [dateNumber]
    omega
  · simp only [dateNumber]
    omega

/-- Later days have greater numbers, by the step from each day to the next. -/
theorem dateNumber_lt_dateNumber {days later : Int} (h : days < later) :
    dateNumber (Calendar.dateOf days) < dateNumber (Calendar.dateOf later) := by
  have hmono : StrictMono fun days => dateNumber (Calendar.dateOf days) :=
    strictMono_int_of_lt_succ fun days => by
      rw [Calendar.dateOf_succ]
      exact dateNumber_lt_nextDate (Calendar.daysOf_dateOf rfl).2
  exact hmono h

/-- A date in basic form is two numbers, one for the day and one for its time. Numbers of a fixed width are
ordered as their digits are, which is what makes the order of dates one of texts. -/
theorem amzDate_eq_digits {t : Instant}
    (hyear : 0 ≤ (CivilTime.ofInstant t).year ∧ (CivilTime.ofInstant t).year ≤ 9999) :
    amzDate t = digits 8 (dateNumber (Calendar.dateOf (t.seconds / 86400))).toNat
      ++ (ascii "T" ++ (digits 6 (timeNumber (t.seconds % 86400)).toNat ++ ascii "Z")) := by
  have hshows := shows_ofInstant t
  obtain ⟨hmonth, ⟨hday, hday'⟩, hhour, hminute, hsecond⟩ := hshows.fits
  have hdate : dateNumber (Calendar.dateOf (t.seconds / 86400)) = 10000 * (ofInstant t).year
      + 100 * (ofInstant t).month + (ofInstant t).day := rfl
  have htime : timeNumber (t.seconds % 86400) = 10000 * (ofInstant t).hour
      + 100 * (ofInstant t).minute + (ofInstant t).second := rfl
  rw [amzDate_eq_basic hshows hyear, hdate, htime]
  generalize ofInstant t = c at *
  -- Digits side by side are those of one number.
  have hfront : digits 4 c.year.toNat ++ digits 2 c.month ++ digits 2 c.day.toNat
      = digits 8 (10000 * c.year + 100 * c.month + c.day).toNat := by
    rw [digits_append 4 2 _ hmonth, digits_append 6 2 _ hday']
    congr 1
    omega
  have hback : digits 2 c.hour.toNat ++ digits 2 c.minute.toNat ++ digits 2 c.second.toNat
      = digits 6 (10000 * c.hour + 100 * c.minute + c.second).toNat := by
    have hhour' := hshows.hour
    have hminute' := hshows.minute
    have hsecond' := hshows.second
    rw [digits_append 2 2 _ hminute, digits_append 4 2 _ hsecond]
    congr 1
    omega
  rw [← hfront, ← hback, basic]
  simp only [List.append_assoc]

end Timestamp

/-! ## The range of a clock -/

/-- A clock that counts nanoseconds in 64 bits can hold the instant. -/
def Instant.Representable (t : Instant) : Prop := -2 ^ 63 ≤ t.nanoseconds ∧ t.nanoseconds < 2 ^ 63

namespace Instant.Representable

variable {t t' : Instant}

/-- The seconds of the range, cut off toward 1970 at both of its ends. -/
theorem seconds_bounds (h : t.Representable) : -9223372036 ≤ t.seconds ∧ t.seconds ≤ 9223372036 :=
  ⟨Int.tdiv_le_tdiv (a := -2 ^ 63) (by decide) h.1,
    Int.tdiv_le_tdiv (b := 2 ^ 63 - 1) (by decide) (Int.le_sub_one_of_lt h.2)⟩

/-- The range starts in 1677 and ends in 2262. -/
theorem year_bounds (h : t.Representable) :
    1677 ≤ (CivilTime.ofInstant t).year ∧ (CivilTime.ofInstant t).year ≤ 2262 := by
  show 1677 ≤ (Calendar.yearOf (t.seconds / 86400)).1 ∧ (Calendar.yearOf (t.seconds / 86400)).1 ≤ 2262
  rcases hyear : Calendar.yearOf (t.seconds / 86400) with ⟨year, day⟩
  obtain ⟨hdays, hfirst, hlast⟩ := Calendar.yearOf_spec hyear
  rw [Calendar.sum_monthLengths] at hlast
  have hseconds := h.seconds_bounds
  -- A year that starts before the range would end before it, as it has 366 days at most.
  have hday : day < 366 := by
    split at hlast <;> omega
  simp only [Calendar.daysBeforeYear, Calendar.epochDays] at hdays
  omega

/-- The whole seconds of an instant are in the range as well. -/
theorem truncateToSeconds (h : t.Representable) : t.truncateToSeconds.Representable := by
  have hseconds := h.seconds_bounds
  simp only [Representable, Instant.truncateToSeconds, Instant.ofSeconds]
  omega

end Instant.Representable

namespace Timestamp

open CivilTime

variable {t t' : Instant}

/-- Later dates have greater digits, and on one day later times. Instants in one second have the same text,
so the order of instants is kept but not reflected. -/
theorem amzDate_le_amzDate (h : t.Representable) (h' : t'.Representable)
    (hle : t.nanoseconds ≤ t'.nanoseconds) : amzDate t ≤ amzDate t' := by
  have hseconds : t.seconds ≤ t'.seconds := Int.tdiv_le_tdiv (by decide) hle
  have hyear := h.year_bounds
  have hyear' := h'.year_bounds
  obtain ⟨hmonth, ⟨hday, hday'⟩, -⟩ := (shows_ofInstant t').fits
  have hnumber : dateNumber (Calendar.dateOf (t'.seconds / 86400)) = 10000 * (ofInstant t').year
      + 100 * (ofInstant t').month + (ofInstant t').day := rfl
  rw [amzDate_eq_digits (by omega), amzDate_eq_digits (by omega)]
  rcases Int.lt_or_eq_of_le (show t.seconds / 86400 ≤ t'.seconds / 86400 by omega) with hlt | heq
  · have hdates : dateNumber (Calendar.dateOf (t.seconds / 86400))
        < dateNumber (Calendar.dateOf (t'.seconds / 86400)) := dateNumber_lt_dateNumber hlt
    exact List.le_of_lt
      (append_lt_append (by simp) (digits_lt_digits (by omega) (by omega)) _ _)
  · -- On one day the texts are told apart by their times.
    rw [heq]
    refine List.append_left_le (List.append_left_le ?_)
    have htimes : timeNumber (t.seconds % 86400) ≤ timeNumber (t'.seconds % 86400)
        ∧ 0 ≤ timeNumber (t.seconds % 86400) ∧ timeNumber (t'.seconds % 86400) < 10 ^ 6 := by
      simp only [timeNumber_eq]
      omega
    rcases Int.lt_or_eq_of_le htimes.1 with hlt | heq
    · exact List.le_of_lt
        (append_lt_append (by simp) (digits_lt_digits (by omega) (by omega)) _ _)
    · rw [heq]
      exact List.le_refl _

/-- The fields `c` of an instant and the texts that are written and read of them. -/
structure WrittenAs (t : Instant) (c : CivilTime) : Prop where
  fields : ∀ other : CivilTime, other.Shows t.seconds ↔ other = c
  basic : amzDate t = c.basic
  length : (amzDate t).length = 16
  day : date8 t = (amzDate t).take 8
  basic_read : parseAmzDate (amzDate t) = .ok t.truncateToSeconds
  iso_read : parseIso c.iso = .ok t.truncateToSeconds
  http_read : ∀ dayName : Bytes, dayName.length = 3 →
    parseHttpDate (c.http dayName) = .ok t.truncateToSeconds
  representable : t.truncateToSeconds.Representable
  ordered : ∀ t' : Instant, t'.Representable → t.nanoseconds ≤ t'.nanoseconds → amzDate t ≤ amzDate t'

/-- **Writing and reading a timestamp invert each other.** The whole seconds of an instant have the fields
of one date, which the signed form spells out; all three forms of that date are read as those seconds,
whatever name the day is given; and later instants have greater texts. -/
theorem forms_invert (h : t.Representable) : ∃ c, WrittenAs t c := by
  have hshows := shows_ofInstant t
  have hyear : 0 ≤ (ofInstant t).year ∧ (ofInstant t).year ≤ 9999 := by
    have := h.year_bounds
    omega
  have hbasic := amzDate_eq_basic hshows hyear
  refine ⟨ofInstant t, fun other => shows_iff, hbasic, ?_, rfl, ?_, parseIso_iso hshows hyear,
    fun dayName hdayName => parseHttpDate_http hshows hyear hdayName, h.truncateToSeconds,
    fun t' h' hle => amzDate_le_amzDate h h' hle⟩
  · rw [hbasic, CivilTime.basic]
    simp [ascii, Bytes.ofChars]
  · rw [hbasic]
    exact parseAmzDate_basic hshows hyear

/-- The first instant of the range lies between two seconds, of which the later one is written. -/
theorem forms_invert_of_earliest :
    Instant.Representable ⟨-9223372036854775808⟩
      ∧ WrittenAs ⟨-9223372036854775808⟩ ⟨1677, 9, 21, 0, 12, 44⟩ := by
  have hrange : Instant.Representable ⟨-9223372036854775808⟩ := by
    unfold Instant.Representable
    decide
  obtain ⟨c, hwritten⟩ := forms_invert hrange
  have hfields : ofInstant ⟨-9223372036854775808⟩ = ⟨1677, 9, 21, 0, 12, 44⟩ := by decide
  have hc : (⟨1677, 9, 21, 0, 12, 44⟩ : CivilTime) = c :=
    (hwritten.fields _).mp (hfields ▸ shows_ofInstant ⟨-9223372036854775808⟩)
  exact ⟨hrange, hc ▸ hwritten⟩

example : amzDate ⟨-9223372036854775808⟩ = ascii "16770921T001244Z" := by decide

end Timestamp

end SigV4
