import SigV4.Credentials

/-!
# Credentials that arrive later

Credentials may be promised by another party. They can be taken once, whether they come to a
success or a failure.
-/

namespace SigV4

/-- What there is to wait for. -/
inductive Awaited where
  | nothing
  | unsettled
  | settled (outcome : Outcome Credentials)
  /-- Computed by the one who waits, and only by waiting without a limit. -/
  | onDemand (outcome : Outcome Credentials)

/-- `promiseOpen` says that the promise can still be settled. -/
structure Pending where
  awaited : Awaited
  promiseOpen : Bool := true

namespace Pending

def isValid (p : Pending) : Bool :=
  match p.awaited with
  | .nothing => false
  | _ => true

/-- Takes the credentials, waiting for at most `timeout` milliseconds if there is a limit. -/
def await (p : Pending) (timeout : Option Int) : Outcome Credentials × Pending :=
  match p.awaited, timeout with
  | .nothing, _ => (.error (.credentialsUnavailable .notAwaitable false []), p)
  | .settled outcome, _ | .onDemand outcome, none => (outcome, { p with awaited := .nothing })
  | .unsettled, some _ | .onDemand _, some _ =>
    (.error (.credentialsUnavailable .timedOut true []), p)
  | .unsettled, none => (.error .notSettled, p)

/-- Keeps the promise, which can be done once. -/
def settle (p : Pending) (outcome : Outcome Credentials) : Outcome Pending :=
  if p.promiseOpen then
    .ok {
      promiseOpen := false
      awaited := match p.awaited with | .unsettled => .settled outcome | other => other }
  else
    .error .promiseBroken

/-- Gives the promise up; whoever waits learns that. -/
def abandon (p : Pending) : Pending where
  promiseOpen := false
  awaited :=
    match p.awaited with
    | .unsettled => .settled (.error .promiseBroken)
    | other => other

end Pending

end SigV4
