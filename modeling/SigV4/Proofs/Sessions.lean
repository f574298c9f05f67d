import SigV4.Holdings
import SigV4.Signer

/-!
# What a client does with requests

A client copies bodies into requests, declares trailers, signs, opens readers and reads from them, in
any order and whether it succeeds or not. `Session.run` takes the actions one after the other. A property
that every action keeps holds after every run (`Session.run_of_kind`, `Session.run_of_step`).

Bodies are values, so a body that was copied is the same body, and what copies share is in `Shared`.
-/

namespace SigV4

/-- A reader, with what it was asked for and what it returned. -/
structure Reading (σ : Type) where
  reader : Reader σ
  lengths : List Nat := []
  outcomes : List (Outcome Bytes) := []

/-- What a client has in hand; `asked` are the bodies that it asked for a reader so far. -/
structure Session (σ : Type) where
  requests : List (Request σ)
  readings : List (Reading σ) := []
  asked : List (Body σ) := []
  shared : Shared := {}

/-- Requests and readings are named by their places. -/
inductive Action (σ : Type) where
  /-- Makes a request that is like `template` and has the body of another one. -/
  | assemble (held : Nat) (template : Request σ)
  /-- Makes a request with the payload of an aws-chunked body. -/
  | takePayload (held : Nat)
  | declareSha256 (held : Nat)
  | sign (held : Nat) (clock : Clock) (config : Config) (identity : Identity)
  | openReader (held : Nat)
  | read (reading : Nat) (n : Nat)
  | cancel (reading : Nat)
  | close (reading : Nat)
  | discard (held : Nat)

namespace Session

variable {σ : Type}

/-- The session with another request in hand. -/
def hold (session : Session σ) (request : Request σ) (shared : Shared) : Session σ :=
  { session with requests := session.requests ++ [request], shared }

/-- Tells the trailers which of them can still be settled by what is left in hand. -/
def letGo (session : Session σ) : Session σ :=
  { session with
    shared := Holdings.retain ⟨session.requests, session.readings.map (·.reader)⟩ session.shared }

/-- The reading that starts with a reader that was opened, if one was. -/
def started (opened : Outcome (Option (Reader σ))) : List (Reading σ) :=
  match opened with
  | .ok (some reader) => [{ reader }]
  | .ok none | .error _ => []

/-- Only a reader that was opened starts a reading. -/
theorem mem_started {opened : Outcome (Option (Reader σ))} {reading : Reading σ} :
    reading ∈ started opened ↔ ∃ reader, opened = .ok (some reader) ∧ reading = { reader } := by
  unfold started
  split
  next reader => simp
  next => simp
  next => simp

/-- What is not found leaves the session as it is, so a property of it is kept if it is kept for all that
may be found. -/
theorem elim_keeps {P : Session σ → Prop} {session : Session σ} {α : Type} {found : Option α}
    {act : α → Session σ} (h : P session) (hact : ∀ a, found = some a → P (act a)) :
    P (found.elim session act) := by
  cases found with
  | none => exact h
  | some a => exact hact a rfl

variable [ByteSource σ]

/-- One action; it does nothing where there is no request or reading of that place. -/
def step (session : Session σ) : Action σ → Session σ
  | .assemble held template =>
    session.requests[held]?.elim session fun request =>
      session.hold { template with body := request.body } session.shared
  | .takePayload held =>
    (session.requests[held]?.bind (·.body.payload?)).elim session fun payload =>
      session.hold { body := payload } session.shared
  | .declareSha256 held =>
    session.requests[held]?.elim session fun request =>
      let (request, shared) := request.withSha256Trailer session.shared
      session.hold request shared
  | .sign held clock config identity =>
    session.requests[held]?.elim session fun request =>
      match Signer.sign clock config identity request session.shared with
      | (.ok signed, shared) => session.hold signed.request shared
      | (.error _, shared) => { session with shared }
  | .openReader held =>
    session.requests[held]?.elim session fun request =>
      let (opened, shared) := request.body.openReader session.shared
      { session with
        readings := session.readings ++ started opened
        asked := session.asked ++ [request.body]
        shared }
  | .read reading n =>
    session.readings[reading]?.elim session fun ⟨reader, lengths, outcomes⟩ =>
      let (outcome, reader, shared) := reader.read n session.shared
      { session with
        readings := session.readings.set reading ⟨reader, lengths ++ [n], outcomes ++ [outcome]⟩
        shared }
  | .cancel reading =>
    session.readings[reading]?.elim session fun current =>
      current.reader.cancel?.elim session fun reader =>
        { session with readings := session.readings.set reading { current with reader } }
  | .close reading => letGo { session with readings := session.readings.eraseIdx reading }
  | .discard held => letGo { session with requests := session.requests.eraseIdx held }

def run (session : Session σ) (actions : List (Action σ)) : Session σ := actions.foldl step session

variable {P : Session σ → Prop} {session : Session σ}

/-- What every action of some kind keeps, holds after every run of such actions. This is the one induction
on the actions; what it needs is said of single actions. -/
theorem run_of_kind {kind : Action σ → Prop}
    (hstep : ∀ session action, kind action → P session → P (session.step action)) (hsession : P session)
    (actions : List (Action σ)) (hkind : ∀ action ∈ actions, kind action) : P (session.run actions) := by
  induction actions generalizing session with
  | nil => exact hsession
  | cons action actions ih =>
    have hnext : P (session.step action) := hstep session action (hkind action List.mem_cons_self) hsession
    exact ih hnext fun other hother => hkind other (List.mem_cons_of_mem action hother)

/-- What every action keeps, holds after every run. -/
theorem run_of_step (hstep : ∀ session action, P session → P (session.step action))
    (hsession : P session) (actions : List (Action σ)) : P (session.run actions) := by
  have hkeeps (session : Session σ) (action : Action σ) (_ : True) : P session → P (session.step action) :=
    hstep session action
  exact run_of_kind hkeeps hsession actions fun _ _ => trivial

end Session

end SigV4
