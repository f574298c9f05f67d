import SigV4.Proofs.WrittenDates

/-!
# Which dates are read

A timestamp is read if it has one of the three forms and each field is in its own range. Whether the month
has that many days is not asked:

* **`Timestamp.Form.Spells.unique`**: the fields can be told from a text in a form.
* **`Timestamp.Form.read_cases`**: a text in a form with fields within bounds is read, and no other.
* **`CivilTime.Bounded.shows_carried`**: a day past the end of its month counts on into the next one.
* **`Timestamp.keeps_fields_iff`**: so the instant has the fields that are written if and only if the
  calendar has their date, leap seconds apart.
-/

namespace SigV4

/-! ## Fields within bounds -/

namespace CivilTime

open Timestamp Calendar

variable {c : CivilTime}

/-- A day past the end of its month counts on into the next month. -/
def carried (c : CivilTime) : CivilTime :=
  if c.day ≤ monthLength c.year c.month then c
  else { c with month := c.month + 1, day := c.day - monthLength c.year c.month }

/-- Fields within bounds lack only one thing to be a date: the month may have fewer days. The other parts of
a date are bounds already. -/
theorem Bounded.isDate_iff (h : c.Bounded) :
    IsDate (c.year, c.month, c.day) ↔ c.day ≤ monthLength c.year c.month :=
  ⟨fun hdate => hdate.2.2, fun hday => ⟨h.month, h.day.1, hday⟩⟩

/-- Only a month in front of December can be too short, and the next one is long enough. So the day counts
on over one month at most, and the date that is reached is one of the calendar and stands for the same
instant. -/
theorem Bounded.isDate_carried (h : c.Bounded) :
    IsDate (c.carried.year, c.carried.month, c.carried.day)
      ∧ c.carried.toInstant = c.toInstant := by
  obtain ⟨hmonth, hmonth'⟩ := h.month
  obtain ⟨hday, hday'⟩ := h.day
  unfold carried
  split
  next hshort => exact ⟨h.isDate_iff.mpr hshort, rfl⟩
  next hlong =>
    -- A day past the end is at most the 31st, which December has.
    have hdecember : c.month ≠ 12 := by
      intro hmonth
      apply hlong
      rw [hmonth]
      exact hday'
    have hlength := monthLength_bounds c.year c.month
    have hnext := monthLength_bounds c.year (c.month + 1)
    refine ⟨⟨?_, ?_, ?_⟩, ?_⟩
    · show 1 ≤ c.month + 1 ∧ c.month + 1 ≤ 12
      omega
    · show 1 ≤ c.day - monthLength c.year c.month
      omega
    · show c.day - monthLength c.year c.month ≤ monthLength c.year (c.month + 1)
      omega
    · -- The days of the month that is left are days of the next one.
      have hdays : daysOf c.year (c.month + 1) (c.day - monthLength c.year c.month)
          = daysOf c.year c.month c.day := by
        rw [daysOf, daysOf, daysBeforeMonth_succ c.year hmonth hmonth']
        omega
      rw [toInstant, toInstant, hdays]

/-- The instant that the fields stand for has them with the day counted on. Leap seconds are excluded, as an
instant has none. -/
theorem Bounded.shows_carried (h : c.Bounded) (hsecond : c.second ≤ 59) :
    c.carried.Shows c.toInstant.seconds := by
  obtain ⟨hdate, hsame⟩ := h.isDate_carried
  -- Counting on changes the date and leaves the time of the day as it is.
  have htime : c.carried.hour = c.hour ∧ c.carried.minute = c.minute ∧ c.carried.second = c.second := by
    unfold carried
    split
    · exact ⟨rfl, rfl, rfl⟩
    · exact ⟨rfl, rfl, rfl⟩
  refine ⟨htime.1 ▸ h.hour, htime.2.1 ▸ h.minute, htime.2.2 ▸ ⟨h.second.1, hsecond⟩, ?_⟩
  refine ⟨_, counted_iff.mpr (dateOf_daysOf hdate), ?_⟩
  rw [← hsame, toInstant, Instant.seconds, Instant.ofSeconds, Int.mul_tdiv_cancel _ (by decide)]
  omega

/-- The instant has the very fields that were written if and only if they are a date of the calendar and no
leap second. In one direction the fields of an instant always are; in the other no day has to be counted on.
-/
theorem Bounded.shows_iff (h : c.Bounded) :
    c.Shows c.toInstant.seconds ↔ c.second ≤ 59 ∧ IsDate (c.year, c.month, c.day) := by
  constructor
  · intro hshows
    obtain ⟨days, hdate, -⟩ := hshows.date
    exact ⟨hshows.second.2, (daysOf_dateOf (counted_iff.mp hdate)).2⟩
  · rintro ⟨hsecond, hdate⟩
    have hcarried := h.shows_carried hsecond
    rwa [carried, if_pos (h.isDate_iff.mp hdate)] at hcarried

end CivilTime

namespace Timestamp

open CivilTime

/-! ## Forms -/

/-- The three forms of a timestamp. -/
inductive Form where
  | basic
  | iso
  | http
deriving DecidableEq, Repr

namespace Form

def read : Form → Bytes → Outcome Instant
  | basic => parseAmzDate
  | iso => parseIso
  | http => parseHttpDate

/-- The text has these fields in the form. The name of the day may be any three bytes. -/
def Spells : Form → CivilTime → Bytes → Prop
  | basic, c, text => text = c.basic
  | iso, c, text => text = c.iso
  | http, c, text => ∃ dayName : Bytes, dayName.length = 3 ∧ text = c.http dayName

variable {form : Form} {c : CivilTime} {text : Bytes}

/-- What is written in a form is read as the instant that the fields stand for. Each reader is the inverse
of its writer on fields within bounds, and the name of the day is not looked at. -/
theorem Spells.read (h : form.Spells c text) (hc : c.Bounded) : form.read text = .ok c.toInstant := by
  cases form with
  | basic =>
    obtain rfl := h
    exact hc.parseAmzDate_basic
  | iso =>
    obtain rfl := h
    exact hc.parseIso_iso
  | http =>
    obtain ⟨dayName, hdayName, rfl⟩ := h
    exact hc.parseHttpDate_http hdayName

end Form

/-! ## One reading of a text -/

variable {width m n : Nat} {c other : CivilTime}

/-- Numbers of the given width can be told by their digits, as the reader of digits finds the number again.
-/
theorem digits_inj (hm : m < 10 ^ width) (hn : n < 10 ^ width) :
    digits width m = digits width n ↔ m = n := by
  refine ⟨fun h => ?_, fun h => h ▸ rfl⟩
  have hnumber := congrArg number? h
  rw [number?_digits hm, number?_digits hn] at hnumber
  exact Option.some.inj hnumber

/-- Digits at the end of a text have their own length, so they are the same only together with what stands
in front. -/
theorem append_digits_inj {front front' : Bytes} :
    front ++ digits width m = front' ++ digits width n
      ↔ front = front' ∧ digits width m = digits width n :=
  ⟨fun h => List.append_inj' h (by simp), fun ⟨hfront, hdigits⟩ => hfront ▸ hdigits ▸ rfl⟩

/-- Fields within bounds can be told by their digits, all but the month, which one of the forms spells by
name. The bounds are what makes each field fit into its digits. -/
theorem eq_of_digits (h : c.Bounded) (h' : other.Bounded) (hmonth : c.month = other.month)
    (hyear : digits 4 c.year.toNat = digits 4 other.year.toNat)
    (hday : digits 2 c.day.toNat = digits 2 other.day.toNat)
    (hhour : digits 2 c.hour.toNat = digits 2 other.hour.toNat)
    (hminute : digits 2 c.minute.toNat = digits 2 other.minute.toNat)
    (hsecond : digits 2 c.second.toNat = digits 2 other.second.toNat) : c = other := by
  obtain ⟨_, _, _, _, _, _⟩ := h
  obtain ⟨_, _, _, _, _, _⟩ := h'
  rw [digits_inj (by omega) (by omega)] at hyear hday hhour hminute hsecond
  obtain ⟨year, month, day, hour, minute, second⟩ := c
  obtain ⟨year', month', day', hour', minute', second'⟩ := other
  rw [CivilTime.mk.injEq]
  dsimp only at *
  omega

/-- **The fields can be told from the text.** The marks stand at fixed places, so the text is cut in one way
only, and what is between them are the digits of the fields. In the form of HTTP the month is told by its
name and the name of the day is left out of account. -/
theorem Form.Spells.unique {form : Form} {text : Bytes} (h : form.Spells c text)
    (h' : form.Spells other text) (hc : c.Bounded) (hother : other.Bounded) : c = other := by
  have hmonth : digits 2 c.month = digits 2 other.month ↔ c.month = other.month :=
    digits_inj (Nat.lt_of_le_of_lt hc.month.2 (by decide))
      (Nat.lt_of_le_of_lt hother.month.2 (by decide))
  -- In each form the fields stand at places of fixed width, so they are compared one by one.
  cases form with
  | basic =>
    have hsame : c.basic = other.basic := h.symm.trans h'
    simp only [CivilTime.basic, List.append_left_inj, append_digits_inj] at hsame
    obtain ⟨⟨⟨⟨⟨hyear, hmonth'⟩, hday⟩, hhour⟩, hminute⟩, hsecond⟩ := hsame
    exact eq_of_digits hc hother (hmonth.mp hmonth') hyear hday hhour hminute hsecond
  | iso =>
    have hsame : c.iso = other.iso := h.symm.trans h'
    simp only [CivilTime.iso, List.append_left_inj, append_digits_inj] at hsame
    obtain ⟨⟨⟨⟨⟨hyear, hmonth'⟩, hday⟩, hhour⟩, hminute⟩, hsecond⟩ := hsame
    exact eq_of_digits hc hother (hmonth.mp hmonth') hyear hday hhour hminute hsecond
  | http =>
    obtain ⟨dayName, -, rfl⟩ := h
    obtain ⟨otherName, -, hsame⟩ := h'
    simp only [CivilTime.http, List.append_left_inj, append_digits_inj] at hsame
    obtain ⟨⟨⟨⟨hfront, hyear⟩, hhour⟩, hminute⟩, hsecond⟩ := hsame
    obtain ⟨hlength, hnumber⟩ := hc.monthName_read
    obtain ⟨hlength', hnumber'⟩ := hother.monthName_read
    -- All names of months are of one length, so the front is cut in one way as well.
    obtain ⟨hfront, hname⟩ := List.append_inj' hfront (hlength.trans hlength'.symm)
    rw [hname, hnumber'] at hnumber
    simp only [List.append_left_inj, append_digits_inj] at hfront
    exact eq_of_digits hc hother (Option.some.inj hnumber).symm hyear hfront.2 hhour hminute hsecond

/-! ## Everything that is read

Each reader accepts the texts that spell a date in its form, and no other. -/

variable {text year day hour minute second : Bytes} {month : Option Nat} {t : Instant}

/-- If six fields are read at all, their digits are those of fields within bounds. The reader of digits
accepts only what the writer writes (`number?_eq_some_iff`), so the six texts are determined by the six
numbers; the month is left open, since one form reads it by name. -/
theorem orInvalid_cases (hyear : year.length = 4) (hday : day.length = 2) (hhour : hour.length = 2)
    (hminute : minute.length = 2) (hsecond : second.length = 2) :
    (∃ c : CivilTime, c.Bounded ∧ month = some c.month ∧ year = digits 4 c.year.toNat
      ∧ day = digits 2 c.day.toNat ∧ hour = digits 2 c.hour.toNat ∧ minute = digits 2 c.minute.toNat
      ∧ second = digits 2 c.second.toNat)
    ∨ orInvalid text (civil? (number? year) month (number? day) (number? hour) (number? minute)
      (number? second)) = .error (.invalidInput (.timestamp text)) := by
  cases hfields : civil? (number? year) month (number? day) (number? hour) (number? minute)
      (number? second) with
  | none => exact .inr rfl
  | some c =>
    left
    -- Every field was read, so each text is the digits of its number.
    simp only [civil?, Option.bind_eq_bind, Option.bind_eq_some_iff, number?_eq_some_iff hyear,
      number?_eq_some_iff hday, number?_eq_some_iff hhour, number?_eq_some_iff hminute,
      number?_eq_some_iff hsecond] at hfields
    obtain ⟨y, ⟨rfl, hy⟩, mo, rfl, d, ⟨rfl, hd⟩, h, ⟨rfl, hh⟩, m, ⟨rfl, hm⟩, s, ⟨rfl, hs⟩, hfields⟩ :=
      hfields
    split at hfields
    next hrange =>
      simp only [inRange, Bool.and_eq_true, decide_eq_true_eq] at hrange
      refine ⟨⟨y, mo, d, h, m, s⟩, ⟨?_, ?_, ?_, ?_, ?_, ?_⟩, ?_⟩
      case refine_7 => simp only [Int.toNat_natCast, and_self]
      all_goals
        dsimp only at *
        omega
    next => exact absurd hfields (by simp)

/-- A text with the marks of the basic form is cut into its fields. The length and the marks leave nothing
open but the bytes of the fields themselves. -/
theorem exists_fields_basic (h : text.length = 16) (hmarks : marked text [(8, 84), (15, 90)] = true) :
    ∃ year month day hour minute second : Bytes, year.length = 4 ∧ month.length = 2 ∧ day.length = 2
      ∧ hour.length = 2 ∧ minute.length = 2 ∧ second.length = 2
      ∧ text = year ++ month ++ day ++ ascii "T" ++ hour ++ minute ++ second ++ ascii "Z" := by
  match text, h with
  | [y₁, y₂, y₃, y₄, n₁, n₂, d₁, d₂, t, h₁, h₂, m₁, m₂, s₁, s₂, z], _ =>
    obtain ⟨rfl, rfl⟩ : t = 84 ∧ z = 90 := by simpa [marked] using hmarks
    exact ⟨[y₁, y₂, y₃, y₄], [n₁, n₂], [d₁, d₂], [h₁, h₂], [m₁, m₂], [s₁, s₂],
      rfl, rfl, rfl, rfl, rfl, rfl, rfl⟩

/-- The same for ISO 8601, which has a mark between any two fields. -/
theorem exists_fields_iso (h : text.length = 20)
    (hmarks : marked text [(4, 45), (7, 45), (10, 84), (13, 58), (16, 58), (19, 90)] = true) :
    ∃ year month day hour minute second : Bytes, year.length = 4 ∧ month.length = 2 ∧ day.length = 2
      ∧ hour.length = 2 ∧ minute.length = 2 ∧ second.length = 2
      ∧ text = year ++ ascii "-" ++ month ++ ascii "-" ++ day ++ ascii "T" ++ hour ++ ascii ":"
        ++ minute ++ ascii ":" ++ second ++ ascii "Z" := by
  match text, h with
  | [y₁, y₂, y₃, y₄, b₁, n₁, n₂, b₂, d₁, d₂, t, h₁, h₂, b₃, m₁, m₂, b₄, s₁, s₂, z], _ =>
    obtain ⟨rfl, rfl, rfl, rfl, rfl, rfl⟩ : b₁ = 45 ∧ b₂ = 45 ∧ t = 84 ∧ b₃ = 58 ∧ b₄ = 58 ∧ z = 90 := by
      simpa [marked] using hmarks
    exact ⟨[y₁, y₂, y₃, y₄], [n₁, n₂], [d₁, d₂], [h₁, h₂], [m₁, m₂], [s₁, s₂],
      rfl, rfl, rfl, rfl, rfl, rfl, rfl⟩

/-- The same for the form of HTTP, with the names of day and month and with the zone at the end. -/
theorem exists_fields_http (h : text.length = 29)
    (hmarks : marked text [(3, 44), (4, 32), (7, 32), (11, 32), (16, 32), (19, 58), (22, 58)] = true)
    (hend : text.drop 25 = ascii " GMT") :
    ∃ dayName day name year hour minute second : Bytes, dayName.length = 3 ∧ day.length = 2
      ∧ name.length = 3 ∧ year.length = 4 ∧ hour.length = 2 ∧ minute.length = 2 ∧ second.length = 2
      ∧ text = dayName ++ ascii ", " ++ day ++ ascii " " ++ name ++ ascii " " ++ year ++ ascii " "
        ++ hour ++ ascii ":" ++ minute ++ ascii ":" ++ second ++ ascii " GMT" := by
  match text, h with
  | [w₁, w₂, w₃, b₁, b₂, d₁, d₂, b₃, n₁, n₂, n₃, b₄, y₁, y₂, y₃, y₄, b₅, h₁, h₂, b₆, m₁, m₂, b₇, s₁, s₂,
      z₁, z₂, z₃, z₄], _ =>
    obtain ⟨rfl, rfl, rfl, rfl, rfl, rfl, rfl⟩ : b₁ = 44 ∧ b₂ = 32 ∧ b₃ = 32 ∧ b₄ = 32 ∧ b₅ = 32
        ∧ b₆ = 58 ∧ b₇ = 58 := by
      simpa [marked] using hmarks
    refine ⟨[w₁, w₂, w₃], [d₁, d₂], [n₁, n₂, n₃], [y₁, y₂, y₃, y₄], [h₁, h₂], [m₁, m₂], [s₁, s₂],
      rfl, rfl, rfl, rfl, rfl, rfl, rfl, ?_⟩
    rw [← hend]
    rfl

/-- A month is read from its name and from no other text. There are twelve names, so this is checked for
each. -/
theorem eq_monthName {name : Bytes} {number : Nat} (h : monthOfName? name = some number) :
    name = monthName number := by
  have hnames : ∀ known ∈ monthNames, (monthOfName? known).map monthName = some known := by decide
  have hname : name ∈ monthNames := by
    obtain ⟨i, hi, -⟩ := Option.map_eq_some_iff.mp h
    exact List.isSome_idxOf?.mp (Option.isSome_of_eq_some hi)
  have hread := hnames name hname
  rw [h] at hread
  exact (Option.some.inj hread).symm

/-- The reader of the basic form finds fields within bounds that are written so, or refuses the text. -/
theorem parseAmzDate_cases (text : Bytes) :
    (∃ c : CivilTime, c.Bounded ∧ text = c.basic)
      ∨ parseAmzDate text = .error (.invalidInput (.timestamp text)) := by
  by_cases hform : text.length = 16 ∧ marked text [(8, 84), (15, 90)] = true
  · obtain ⟨year, month, day, hour, minute, second, hyear, hmonth, hday, hhour, hminute, hsecond, rfl⟩ :=
      exists_fields_basic hform.1 hform.2
    rw [parseAmzDate_append hyear hmonth hday hhour hminute hsecond]
    refine (orInvalid_cases hyear hday hhour hminute hsecond).imp_left ?_
    rintro ⟨c, hc, hnumber, rfl, rfl, rfl, rfl, rfl⟩
    obtain ⟨rfl, -⟩ := (number?_eq_some_iff hmonth).mp hnumber
    exact ⟨c, hc, rfl⟩
  · right
    rw [parseAmzDate, if_neg (by simpa using hform)]

/-- The reader of ISO 8601 does the same. -/
theorem parseIso_cases (text : Bytes) :
    (∃ c : CivilTime, c.Bounded ∧ text = c.iso)
      ∨ parseIso text = .error (.invalidInput (.timestamp text)) := by
  by_cases hform : text.length = 20
      ∧ marked text [(4, 45), (7, 45), (10, 84), (13, 58), (16, 58), (19, 90)] = true
  · obtain ⟨year, month, day, hour, minute, second, hyear, hmonth, hday, hhour, hminute, hsecond, rfl⟩ :=
      exists_fields_iso hform.1 hform.2
    rw [parseIso_append hyear hmonth hday hhour hminute hsecond]
    refine (orInvalid_cases hyear hday hhour hminute hsecond).imp_left ?_
    rintro ⟨c, hc, hnumber, rfl, rfl, rfl, rfl, rfl⟩
    obtain ⟨rfl, -⟩ := (number?_eq_some_iff hmonth).mp hnumber
    exact ⟨c, hc, rfl⟩
  · right
    rw [parseIso, if_neg (by simpa using hform)]

/-- The reader of the form of HTTP does the same, and a month without a name is a fault of its own. -/
theorem parseHttpDate_cases (text : Bytes) :
    (∃ c : CivilTime, c.Bounded ∧ ∃ dayName : Bytes, dayName.length = 3 ∧ text = c.http dayName)
      ∨ parseHttpDate text = .error (.invalidInput (.httpDate text))
      ∨ parseHttpDate text = .error (.invalidInput (.timestamp text)) := by
  by_cases hform : (text.length = 29
      ∧ marked text [(3, 44), (4, 32), (7, 32), (11, 32), (16, 32), (19, 58), (22, 58)] = true)
      ∧ text.drop 25 = ascii " GMT"
  · obtain ⟨dayName, day, name, year, hour, minute, second, hdayName, hday, hname, hyear, hhour, hminute,
      hsecond, rfl⟩ := exists_fields_http hform.1.1 hform.1.2 hform.2
    rw [parseHttpDate_append hdayName hname hyear hday hhour hminute hsecond]
    cases hnumber : monthOfName? name with
    | none => exact .inr (.inl rfl)
    | some number =>
      refine (orInvalid_cases hyear hday hhour hminute hsecond).imp ?_ .inr
      rintro ⟨c, hc, hmonth, rfl, rfl, rfl, rfl, rfl⟩
      obtain rfl := Option.some.inj hmonth
      -- The name is not lost in the number that was read.
      obtain rfl := eq_monthName hnumber
      exact ⟨c, hc, dayName, hdayName, rfl⟩
  · right
    left
    rw [parseHttpDate, if_neg (by simpa using hform)]

/-- **A text is read if it has a form and its fields are within bounds**, and is refused otherwise. Together
with `Spells.read` this says which texts are read and as what. -/
theorem Form.read_cases (form : Form) (text : Bytes) :
    (∃ c : CivilTime, c.Bounded ∧ form.Spells c text)
      ∨ form.read text = .error (.invalidInput (.httpDate text))
      ∨ form.read text = .error (.invalidInput (.timestamp text)) := by
  cases form with
  | basic => exact (parseAmzDate_cases text).imp_right .inr
  | iso => exact (parseIso_cases text).imp_right .inr
  | http => exact parseHttpDate_cases text

/-- What is refused is invalid input, whatever the form. So a reader of dates has no other failures. -/
theorem Form.invalidInput_of_read (form : Form) {text : Bytes} {failure : Failure}
    (h : form.read text = .error failure) : ∃ fault, failure = .invalidInput fault := by
  rcases form.read_cases text with ⟨c, hc, hspelled⟩ | hrefused | hrefused
  · rw [hspelled.read hc] at h
    contradiction
  · exact ⟨_, (Except.error.inj (hrefused.symm.trans h)).symm⟩
  · exact ⟨_, (Except.error.inj (hrefused.symm.trans h)).symm⟩

/-! ## What becomes of the fields -/

/-- A date is written again as it was read if an instant has its fields. The text that is written has the
fields of the instant, so it is the text that was read only if these are the fields that were read. -/
theorem amzDate_toInstant_iff (hc : c.Bounded) :
    amzDate c.toInstant = c.basic ↔ c.second ≤ 59 ∧ Calendar.IsDate (c.year, c.month, c.day) := by
  rw [← hc.shows_iff]
  refine ⟨fun hsame => ?_, fun hshows => amzDate_eq_basic hshows hc.year⟩
  have hshows := shows_ofInstant c.toInstant
  have hread := parseAmzDate_amzDate c.toInstant
  rw [hsame, hc.parseAmzDate_basic] at hread
  split at hread
  next hyear =>
    -- The text has the fields of the instant, and no others.
    rw [amzDate_eq_basic hshows hyear] at hsame
    have hown : Form.basic.Spells c c.basic := rfl
    have hfields : c = ofInstant c.toInstant := hown.unique hsame.symm hc (hshows.bounded hyear)
    rwa [← hfields] at hshows
  next => exact absurd hread (by simp)

/-- A text with the fields `c`, and what its reader makes of it. -/
structure ReadAs (form : Form) (text : Bytes) (c : CivilTime) : Prop where
  bounded : c.Bounded
  spelled : form.Spells c text
  unique : ∀ other : CivilTime, other.Bounded → form.Spells other text → other = c
  read : form.read text = .ok c.toInstant
  /-- The calendar decides whether the instant has these fields. -/
  kept : c.Shows c.toInstant.seconds ↔ c.second ≤ 59 ∧ Calendar.IsDate (c.year, c.month, c.day)
  carried : c.second ≤ 59 → c.carried.Shows c.toInstant.seconds
  rewritten : form = .basic →
    (amzDate c.toInstant = text ↔ c.second ≤ 59 ∧ Calendar.IsDate (c.year, c.month, c.day))

/-- **Which dates are read.** A text in a form with fields within bounds is read as an instant, and every
other text is refused. The instant has the fields that are written if and only if the calendar has their date,
leap seconds apart; otherwise the day counts on into the next month. -/
theorem keeps_fields_iff (form : Form) (text : Bytes) :
    (∃ c, ReadAs form text c)
      ∨ (∀ c : CivilTime, c.Bounded → ¬ form.Spells c text)
        ∧ (form.read text = .error (.invalidInput (.httpDate text))
          ∨ form.read text = .error (.invalidInput (.timestamp text))) := by
  rcases form.read_cases text with ⟨c, hc, hspelled⟩ | hrefused
  · refine .inl ⟨c, hc, hspelled, fun other hother h => h.unique hspelled hother hc, hspelled.read hc,
      hc.shows_iff, hc.shows_carried, ?_⟩
    rintro rfl
    obtain rfl := hspelled
    exact amzDate_toInstant_iff hc
  · refine .inr ⟨fun c hc hspelled => ?_, hrefused⟩
    rw [hspelled.read hc] at hrefused
    exact hrefused.elim (by simp) (by simp)

/-- The thirtieth of February is read as the second of March. -/
theorem missing_day_is_read :
    parseAmzDate (ascii "20210230T000000Z") = .ok (.ofSeconds 1614643200)
      ∧ Instant.Representable (.ofSeconds 1614643200)
      ∧ Form.basic.Spells ⟨2021, 2, 30, 0, 0, 0⟩ (ascii "20210230T000000Z")
      ∧ ¬ CivilTime.Shows ⟨2021, 2, 30, 0, 0, 0⟩ (Instant.ofSeconds 1614643200).seconds
      ∧ amzDate (.ofSeconds 1614643200) = ascii "20210302T000000Z" := by
  refine ⟨rfl, ⟨by decide, by decide⟩, rfl, ?_, by decide⟩
  rw [CivilTime.shows_iff]
  decide

end Timestamp

end SigV4
