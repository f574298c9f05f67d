import SigV4.Calendar
import SigV4.Failure

/-!
# Instants and their three written forms

An instant counts nanoseconds since 1970 UTC. The basic form (`20130524T000000Z`) is signed, the
ISO 8601 form states when credentials expire, and the HTTP form dates responses.
-/

namespace SigV4

structure Instant where
  nanoseconds : Int
deriving DecidableEq, Repr

namespace Instant

def ofSeconds (seconds : Int) : Instant := ⟨seconds * 1000000000⟩

/-- Whole seconds, toward zero. -/
def seconds (t : Instant) : Int := t.nanoseconds.tdiv 1000000000

def truncateToSeconds (t : Instant) : Instant := ofSeconds t.seconds

def addMilliseconds (t : Instant) (ms : Int) : Instant := ⟨t.nanoseconds + ms * 1000000⟩

end Instant

/-- The fields of a date and a time of day in UTC. -/
structure CivilTime where
  year : Int
  month : Nat
  day : Int
  hour : Int
  minute : Int
  second : Int
deriving DecidableEq, Repr

namespace CivilTime

def ofInstant (t : Instant) : CivilTime :=
  let days := t.seconds / 86400
  let second := t.seconds % 86400
  let (year, month, day) := Calendar.dateOf days
  ⟨year, month, day, second / 3600, second / 60 % 60, second % 60⟩

/-- Fields past the end of their unit (a leap second, the thirtieth of February) count on. -/
def toInstant (t : CivilTime) : Instant :=
  .ofSeconds (Calendar.daysOf t.year t.month t.day * 86400 + t.hour * 3600 + t.minute * 60 + t.second)

/-- What the readers of all three forms check, each field on its own. -/
def inRange (t : CivilTime) : Bool :=
  1 ≤ t.month && t.month ≤ 12 && 1 ≤ t.day && t.day ≤ 31 && t.hour ≤ 23 && t.minute ≤ 59
    && t.second ≤ 60

end CivilTime

namespace Timestamp

/-- At least `width` decimal digits, with zeros in front. -/
def padded (width : Nat) (n : Int) : Bytes :=
  let digits := Bytes.signedDecimal n
  List.replicate (width - digits.length) 48 ++ digits

/-- The basic form of ISO 8601, `yyyyMMddTHHmmssZ`. -/
def amzDate (t : Instant) : Bytes :=
  let c := CivilTime.ofInstant t
  padded 4 c.year ++ padded 2 c.month ++ padded 2 c.day ++ ascii "T"
    ++ padded 2 c.hour ++ padded 2 c.minute ++ padded 2 c.second ++ ascii "Z"

/-- The day that a credential scope names, `yyyyMMdd`. -/
def date8 (t : Instant) : Bytes := (amzDate t).take 8

/-- A number of decimal digits and nothing else. -/
def number? (digits : Bytes) : Option Nat :=
  digits.foldlM (fun n b => if 48 ≤ b && b ≤ 57 then some (10 * n + (b.toNat - 48)) else none) 0

/-- The number in `length` bytes from `start` on. -/
def field? (text : Bytes) (start length : Nat) : Option Nat := number? ((text.drop start).take length)

/-- The six fields of a timestamp, where all are numbers and in range. -/
def civil? (year month day hour minute second : Option Nat) : Option CivilTime := do
  let t : CivilTime := ⟨← year, ← month, ← day, ← hour, ← minute, ← second⟩
  if t.inRange then some t else none

def orInvalid (text : Bytes) : Option CivilTime → Outcome Instant
  | some t => .ok t.toInstant
  | none => .error (.invalidInput (.timestamp text))

/-- Do these bytes stand at these places? -/
def marked (text : Bytes) (marks : List (Nat × UInt8)) : Bool :=
  marks.all fun (place, b) => text[place]? == some b

/-- Reads `yyyyMMddTHHmmssZ`. -/
def parseAmzDate (text : Bytes) : Outcome Instant :=
  if text.length = 16 && marked text [(8, 84), (15, 90)] then
    orInvalid text <| civil? (field? text 0 4) (field? text 4 2) (field? text 6 2)
      (field? text 9 2) (field? text 11 2) (field? text 13 2)
  else
    .error (.invalidInput (.timestamp text))

/-- Reads `yyyy-MM-ddTHH:mm:ssZ`. -/
def parseIso (text : Bytes) : Outcome Instant :=
  if text.length = 20 && marked text [(4, 45), (7, 45), (10, 84), (13, 58), (16, 58), (19, 90)] then
    orInvalid text <| civil? (field? text 0 4) (field? text 5 2) (field? text 8 2)
      (field? text 11 2) (field? text 14 2) (field? text 17 2)
  else
    .error (.invalidInput (.timestamp text))

def monthNames : List Bytes :=
  ["Jan", "Feb", "Mar", "Apr", "May", "Jun", "Jul", "Aug", "Sep", "Oct", "Nov", "Dec"].map ascii

/-- The number of a month, from one. -/
def monthOfName? (name : Bytes) : Option Nat := (monthNames.idxOf? name).map (· + 1)

/-- Reads the form of RFC 1123, `Fri, 16 Oct 2020 19:56:00 GMT`; the name of the day may be any
three bytes. -/
def parseHttpDate (text : Bytes) : Outcome Instant :=
  if text.length = 29
      && marked text [(3, 44), (4, 32), (7, 32), (11, 32), (16, 32), (19, 58), (22, 58)]
      && text.drop 25 == ascii " GMT" then
    match monthOfName? ((text.drop 8).take 3) with
    | none => .error (.invalidInput (.httpDate text))
    | some month =>
      orInvalid text <| civil? (field? text 12 4) (some month) (field? text 5 2)
        (field? text 17 2) (field? text 20 2) (field? text 23 2)
  else
    .error (.invalidInput (.httpDate text))

end Timestamp

end SigV4
