import SigV4.Proofs.CalendarDays
import SigV4.Timestamp

/-!
# Dates and their digits

The fields of an instant are what a clock in UTC shows, and each of them is written in digits.

* **`CivilTime.shows_iff`**: an instant has the fields that a clock shows, and no others.
* **`CivilTime.Shows.toInstant`**: these fields stand for its whole seconds.
* **`Timestamp.number?_digits`**: a number is read from its digits.
* **`Timestamp.digits_append`**, **`Timestamp.digits_lt_digits`**: numbers of a fixed width stand side by
  side as one number, and are ordered like their digits.
-/

namespace SigV4

namespace CivilTime

/-- The fields that a clock in UTC shows so many seconds after 1970 began, or before it. -/
structure Shows (c : CivilTime) (seconds : Int) : Prop where
  hour : 0 ≤ c.hour ∧ c.hour ≤ 23
  minute : 0 ≤ c.minute ∧ c.minute ≤ 59
  second : 0 ≤ c.second ∧ c.second ≤ 59
  date : ∃ days, Calendar.Counted days (c.year, c.month, c.day)
    ∧ seconds = 86400 * days + 3600 * c.hour + 60 * c.minute + c.second

variable {c : CivilTime} {seconds : Int}

/-- The fields of an instant are what a clock shows: the day is counted on the calendar, and the rest of it
is divided into hours, minutes and seconds. -/
theorem shows_ofInstant (t : Instant) : (ofInstant t).Shows t.seconds := by
  refine ⟨?_, ?_, ?_, t.seconds / 86400, Calendar.counted_dateOf _, ?_⟩
  all_goals
    simp only [ofInstant]
    omega

/-- A clock shows the fields of an instant and nothing else. The seconds of an instant are divided in one
way only, into the days and the time of the day. -/
theorem shows_iff {t : Instant} : c.Shows t.seconds ↔ c = ofInstant t := by
  refine ⟨fun h => ?_, fun h => h ▸ shows_ofInstant t⟩
  obtain ⟨days, hdate, hseconds⟩ := h.date
  have hhour := h.hour
  have hminute := h.minute
  have hsecond := h.second
  rw [ofInstant, show t.seconds / 86400 = days by omega, Calendar.counted_iff.mp hdate]
  obtain ⟨year, month, day, hour, minute, second⟩ := c
  simp only [mk.injEq, true_and]
  dsimp only at *
  omega

/-- The fields of an instant are in range and stand for its whole seconds. -/
theorem Shows.toInstant (h : c.Shows seconds) : c.toInstant = .ofSeconds seconds ∧ c.inRange = true := by
  obtain ⟨days, hdate, hseconds⟩ := h.date
  obtain ⟨hdays, ⟨hmonth, hmonth'⟩, hday, hday'⟩ :=
    Calendar.daysOf_dateOf (Calendar.counted_iff.mp hdate)
  have hlength := (Calendar.monthLength_bounds c.year c.month).2
  have hhour := h.hour
  have hminute := h.minute
  have hsecond := h.second
  rw [CivilTime.toInstant, hdays, hseconds, inRange]
  refine ⟨?_, ?_⟩
  · congr 1
    omega
  · simp only [Bool.and_eq_true, decide_eq_true_eq]
    omega

end CivilTime

/-! ## Numbers of a fixed width -/

/-- A decimal number with its last digit split off, in the form that inductions on the number need. -/
theorem decimal_eq (n : Nat) :
    Bytes.decimal n = if n < 10 then [UInt8.ofNat (48 + n)]
      else Bytes.decimal (n / 10) ++ [UInt8.ofNat (48 + n % 10)] := by
  have hdigit : ∀ i : Fin 10, (i : Nat).digitChar.toNat = 48 + i := by decide
  unfold Bytes.decimal
  rw [Nat.toDigits_eq_if (by omega)]
  split
  next hn => simp [Bytes.ofChars, hdigit ⟨n, hn⟩]
  next => simp [Bytes.ofChars, hdigit ⟨n % 10, Nat.mod_lt n (by omega)⟩]

namespace Timestamp

/-- The last `width` decimal digits of a number. -/
def digits : Nat → Nat → Bytes
  | 0, _ => []
  | width + 1, n => digits width (n / 10) ++ [UInt8.ofNat (48 + n % 10)]

variable {width m n : Nat}

@[simp] theorem length_digits (width n : Nat) : (digits width n).length = width := by
  induction width generalizing n with
  | zero => rfl
  | succ width ih => rw [digits, List.length_append, ih, List.length_singleton]

/-- A number is read from the front, so one more byte makes ten times of it and adds a digit, or nothing is
read. -/
theorem number?_concat (front : Bytes) (b : UInt8) :
    number? (front ++ [b]) = (number? front).bind fun m =>
      if 48 ≤ b ∧ b ≤ 57 then some (10 * m + (b.toNat - 48)) else none := by
  unfold number?
  rw [List.foldlM_append]
  generalize List.foldlM (m := Option) _ 0 front = number
  cases number with
  | none => rfl
  | some m =>
    simp only [List.foldlM_cons, List.foldlM_nil, Bool.and_eq_true, decide_eq_true_eq]
    exact Option.bind_fun_some _

/-- One more digit is taken in with its value. -/
theorem number?_digit (hn : n < 10) (digits : Bytes) :
    number? (digits ++ [UInt8.ofNat (48 + n)]) = (number? digits).map fun m => 10 * m + n := by
  have hdigits : ∀ i : Fin 10, (48 ≤ UInt8.ofNat (48 + i) ∧ UInt8.ofNat (48 + i) ≤ 57)
      ∧ (UInt8.ofNat (48 + i)).toNat - 48 = i := by
    decide
  obtain ⟨hrange, hvalue⟩ := hdigits ⟨n, hn⟩
  dsimp only at hrange hvalue
  simp only [number?_concat, hrange, hvalue, and_self, if_true]
  exact Option.map_eq_bind.symm

/-- A number is read from its digits, if it fits in their width. The induction splits the last digit off, as
the digits are defined. -/
theorem number?_digits (h : n < 10 ^ width) : number? (digits width n) = some n := by
  induction width generalizing n with
  | zero =>
    rw [show n = 0 by omega]
    rfl
  | succ width ih =>
    rw [digits, number?_digit (Nat.mod_lt n (by omega)), ih (by omega), Option.map_some]
    congr 1
    omega

/-- **A number is read from its digits** and from nothing else. The induction splits the last byte off,
which has to be a digit, and the bytes before are the digits of a tenth. -/
theorem number?_eq_some_iff {text : Bytes} (hwidth : text.length = width) :
    number? text = some n ↔ text = digits width n ∧ n < 10 ^ width := by
  refine ⟨fun h => ?_, fun ⟨htext, hn⟩ => htext ▸ number?_digits hn⟩
  induction width generalizing text n with
  | zero =>
    obtain rfl := List.length_eq_zero_iff.mp hwidth
    obtain rfl : 0 = n := Option.some.inj h
    exact ⟨rfl, by decide⟩
  | succ width ih =>
    have hne : text ≠ [] := List.ne_nil_of_length_eq_add_one hwidth
    -- Digits are taken in from the left, so the last one is split off.
    obtain ⟨front, b, rfl⟩ : ∃ front b, text = front ++ [b] :=
      ⟨_, _, (List.dropLast_concat_getLast hne).symm⟩
    rw [number?_concat, Option.bind_eq_some_iff] at h
    obtain ⟨m, hfront, hlast⟩ := h
    obtain ⟨hrange, rfl⟩ : (48 ≤ b ∧ b ≤ 57) ∧ 10 * m + (b.toNat - 48) = n := by simpa using hlast
    obtain ⟨rfl, hm⟩ := ih (by simpa using hwidth) hfront
    have hlow : 48 ≤ b.toNat := UInt8.le_iff_toNat_le.mp hrange.1
    have hhigh : b.toNat ≤ 57 := UInt8.le_iff_toNat_le.mp hrange.2
    have hb : UInt8.ofNat (48 + (b.toNat - 48)) = b := by
      rw [Nat.add_sub_cancel' hlow, UInt8.ofNat_toNat]
    -- The number falls into its last digit and the others, as the digits are written.
    have htens : (10 * m + (b.toNat - 48)) / 10 = m := by omega
    have hones : (10 * m + (b.toNat - 48)) % 10 = b.toNat - 48 := by omega
    refine ⟨?_, by omega⟩
    rw [digits, htens, hones, hb]

/-- A number that is filled up with zeros is written in its digits, if it fits. Induction splits the last
digit off; a number of one digit leaves zeros alone. -/
theorem padded_eq_digits (h : n < 10 ^ (width + 1)) : padded (width + 1) n = digits (width + 1) n := by
  have hpadded (width n : Nat) :
      padded width n = List.replicate (width - (Bytes.decimal n).length) 48 ++ Bytes.decimal n := rfl
  induction width generalizing n with
  | zero =>
    have hn : n < 10 := by omega
    rw [hpadded, decimal_eq, if_pos hn, digits, Nat.mod_eq_of_lt hn]
    rfl
  | succ width ih =>
    rw [digits, ← ih (by omega), hpadded, hpadded, decimal_eq n]
    split
    next hn =>
      -- The number in front of the last digit is zero and written as one more zero.
      rw [Nat.div_eq_of_lt hn, Nat.mod_eq_of_lt hn]
      exact congrArg (· ++ [UInt8.ofNat (48 + n)]) List.replicate_succ'
    next hn =>
      rw [List.length_append, List.length_singleton, Nat.add_sub_add_right, List.append_assoc]

/-- Numbers of a fixed width stand side by side as one number. The induction is on the digits of the second.
-/
theorem digits_append (front back m : Nat) (h : n < 10 ^ back) :
    digits front m ++ digits back n = digits (front + back) (m * 10 ^ back + n) := by
  induction back generalizing n with
  | zero => simp [digits, show n = 0 by omega]
  | succ back ih =>
    have hshift : m * 10 ^ (back + 1) = 10 * (m * 10 ^ back) := by
      rw [Nat.pow_succ, ← Nat.mul_assoc, Nat.mul_comm]
    have hfront : (m * 10 ^ (back + 1) + n) / 10 = m * 10 ^ back + n / 10 := by omega
    have hlast : (m * 10 ^ (back + 1) + n) % 10 = n % 10 := by omega
    rw [digits, ← List.append_assoc, ih (by omega), ← Nat.add_assoc, digits, hfront, hlast]

/-! ## Numbers that do not fit -/

/-- A number that does not fit is written longer. So the length tells whether a year has four digits. -/
theorem length_padded {n : Int} (hwidth : 0 < width) (hn : 0 ≤ n) :
    (padded width n).length = width ↔ n < 10 ^ width := by
  obtain ⟨m, rfl⟩ := Int.eq_ofNat_of_zero_le hn
  have hle : (Bytes.decimal m).length ≤ width ↔ m < 10 ^ width := by
    rw [Bytes.decimal, Bytes.ofChars, List.length_map]
    exact Nat.length_toDigits_le_iff (by omega) hwidth
  have hlt : ((m : Int) < 10 ^ width) ↔ m < 10 ^ width := by
    exact_mod_cast Iff.rfl
  rw [hlt, ← hle, padded, List.length_append, List.length_replicate]
  show _ - (Bytes.decimal m).length + (Bytes.decimal m).length = width ↔ _
  omega

/-- No number has a byte other than digits, wherever it stands. -/
theorem number?_eq_none_of_mem {digits : Bytes} {b : UInt8} (hmem : b ∈ digits)
    (hb : ¬ (48 ≤ b ∧ b ≤ 57)) : number? digits = none := by
  obtain ⟨front, rest, rfl⟩ := List.append_of_mem hmem
  unfold number?
  rw [List.foldlM_append]
  generalize List.foldlM (m := Option) _ 0 front = front
  cases front with
  | none => rfl
  | some m => simp [List.foldlM_cons, hb]

/-- A negative number is written with its sign among the zeros. -/
theorem minus_mem_padded {n : Int} (hn : n < 0) : 45 ∈ padded width n := by
  cases n with
  | ofNat n => exact absurd hn (Int.not_lt.mpr (Int.natCast_nonneg n))
  | negSucc n => exact List.mem_append_right _ List.mem_cons_self

/-! ## The order of texts -/

/-- Texts of one length are told apart before what follows them. -/
theorem append_lt_append {a b : Bytes} (hlength : a.length = b.length) (h : a < b) (x y : Bytes) :
    a ++ x < b ++ y := by
  induction a generalizing b with
  | nil =>
    rw [List.length_eq_zero_iff.mp hlength.symm] at h
    exact absurd h (List.lt_irrefl [])
  | cons first a ih =>
    obtain ⟨other, b, rfl⟩ := List.exists_cons_of_length_eq_add_one hlength.symm
    rw [List.cons_append, List.cons_append, List.cons_lt_cons_iff]
    rcases List.cons_lt_cons_iff.mp h with hfirst | ⟨hfirst, hrest⟩
    · exact .inl hfirst
    · exact .inr ⟨hfirst, ih (Nat.succ.inj hlength) hrest⟩

/-- Numbers of a fixed width are ordered like their digits. The induction splits the last digit off: it
decides only where the digits before are the same. -/
theorem digits_lt_digits (h : m < n) (h' : n < 10 ^ width) : digits width m < digits width n := by
  induction width generalizing m n with
  | zero => omega
  | succ width ih =>
    rcases Nat.lt_or_ge (m / 10) (n / 10) with hfront | hfront
    · exact append_lt_append (by simp) (ih hfront (by omega)) _ _
    · rw [digits, digits, show m / 10 = n / 10 by omega]
      refine List.append_left_lt (List.cons_lt_cons_iff.mpr (.inl ?_))
      rw [UInt8.lt_iff_toNat_lt, UInt8.toNat_ofNat', UInt8.toNat_ofNat']
      omega

end Timestamp

end SigV4
