import SigV4.Response
import SigV4.Timestamp

/-!
# The clock and its skew

A service refuses requests whose date is off. The difference between the two clocks is learnt from
a refused request and its response, and added to the client's time from then on.
-/

namespace SigV4

/-- The correction in force, in milliseconds; `log` says that corrections are reported. -/
structure ClockSkew where
  offset : Int := 0
  log : Bool := false
deriving DecidableEq, Repr

namespace ClockSkew

/-- Four minutes in nanoseconds. -/
def threshold : Nat := 240 * 1000000000

/-- A difference of the threshold counts as skewed. -/
def isSkewed (client server : Instant) : Bool :=
  threshold ≤ (server.nanoseconds - client.nanoseconds).natAbs

/-- The milliseconds to add to the client's time, toward zero. -/
def correction (client server : Instant) : Int :=
  (server.nanoseconds - client.nanoseconds).tdiv 1000000

/-- The error codes with which services report a skewed clock. -/
def isSkewError (code : Bytes) : Bool :=
  [ascii "RequestTimeTooSkewed", ascii "RequestExpired", ascii "RequestInTheFuture"].contains code

/-- The date that a request was signed with: presigned requests carry it in the query. -/
def signingDate {σ : Type} (request : Request σ) : Option Bytes :=
  request.headers.get? (ascii "x-amz-date") <|> request.queries.get? (ascii "X-Amz-Date")

def parseDates (clientDate serverDate : Bytes) : Outcome (Instant × Instant) := do
  let client ← Timestamp.parseAmzDate clientDate
  let server ← Timestamp.parseHttpDate serverDate
  return (client, server)

def correctedNote (offset : Int) : Bytes :=
  ascii "[sigkit] clock skew detected, correcting signing time by " ++ Bytes.signedDecimal offset
    ++ ascii "ms\n"

def unreadableNote (failure : Failure) : Bytes :=
  ascii "[sigkit] skipping clock skew detection: " ++ failure.message ++ ascii "\n"

/-- Learns the correction from a request and its response, if the clocks are apart or the service
says so. Returns the correction, the next state and the text that was logged. -/
def detect {σ : Type} (skew : ClockSkew) (request : Request σ) (response : Response) :
    Option Int × ClockSkew × Bytes :=
  match signingDate request, response.headers.get? (ascii "Date") with
  | some clientDate, some serverDate =>
    match parseDates clientDate serverDate with
    | .error failure => (none, skew, if skew.log then unreadableNote failure else [])
    | .ok (client, server) =>
      if response.errorCode.any isSkewError || isSkewed client server then
        let offset := correction client server
        (some offset, { skew with offset }, if skew.log then correctedNote offset else [])
      else
        (none, skew, [])
  | _, _ => (none, skew, [])

/-- Takes this correction, whatever was learnt before. -/
def setOffset (skew : ClockSkew) (milliseconds : Int) : ClockSkew :=
  { skew with offset := milliseconds }

def reset (skew : ClockSkew) : ClockSkew := skew.setOffset 0

end ClockSkew

/-- A clock that shows `time`, corrected if a skew is given. -/
structure Clock where
  time : Instant
  skew : Option ClockSkew := none
deriving DecidableEq, Repr

/-- The time to sign with, in whole seconds. -/
def Clock.now (clock : Clock) : Instant :=
  (clock.time.addMilliseconds (clock.skew.elim 0 (·.offset))).truncateToSeconds

end SigV4
