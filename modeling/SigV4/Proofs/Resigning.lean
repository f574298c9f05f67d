import SigV4.Proofs.Reading
import SigV4.Proofs.Signing

/-!
# Signing again

A request that was signed can be signed again, for another date, with other credentials. What an
earlier attempt left in the request must not show in the next signature:

* **`terms_congr`**: whether a request can be signed, and with which kind of hash, follows from its
  body and its trailers.
* **`Attempt.finish_congr`**: finishing overwrites or removes all that an earlier finishing edited, for
  any spelling and any number of values that the request had before.
* **`sign_again`**: so signing again is signing the request that was there before the first attempt.
-/

namespace SigV4

/-- The second configuration is for another attempt: the date, the region, the service, the expiry
and the use of the token may differ, and nothing else. -/
def Config.IsRetry (config config' : Config) : Prop :=
  config' = { config with
    signingDate := config'.signingDate
    region := config'.region
    service := config'.service
    expiresAfter := config'.expiresAfter
    omitToken := config'.omitToken }

namespace Signer

variable {σ : Type} {clock clock' : Clock} {config config' : Config} {identity identity' : Identity}
  {request other : Request σ} {shared later after : Shared}

/-! ## What is settled before a request is edited

The checks before signing look at the body, the credentials and the time. They come to the
same for a request and for what an earlier attempt made of it. -/

/-- Credentials, time and kind of hash, where there is something to sign, and what with. -/
def terms (clock : Clock) (config : Config) (identity : Identity) (request : Request σ)
    (shared : Shared) : Outcome (Credentials × Instant × PayloadHash) := do
  config.validate
  let credentials ← identityCredentials identity
  if request.body.consumed shared then
    throw (.unsignableBody .alreadyRead)
  let time := config.signingDate.getD clock.now
  checkExpiration credentials time
  let hash ← resolveHash request config
  return (credentials, time, hash)

/-- Preparing comes to the terms and then to the announcement, if there is one. What it checks concerns body
and trailers and neither headers nor queries. -/
theorem prepare_eq (clock : Clock) (config : Config) (identity : Identity) (request : Request σ)
    (shared : Shared) : prepare clock config identity request shared = do
      let (credentials, time, hash) ← terms clock config identity (unwrapBody request) shared
      let announced ← if hash.streaming then announceChunks (unwrapBody request) hash config
        else pure (unwrapBody request)
      return { request := announced, credentials, hash, amzDate := Timestamp.amzDate time } := by
  unfold prepare terms
  -- The checks come in the same order on both sides, so that the first to fail is the same.
  cases config.validate with
  | error failure => rfl
  | ok =>
    cases identityCredentials identity with
    | error failure => rfl
    | ok credentials =>
      dsimp only [bind, Except.bind]
      split
      · rfl
      · cases checkExpiration credentials (config.signingDate.getD clock.now) with
        | error failure => rfl
        | ok =>
          cases resolveHash (unwrapBody request) config with
          | error failure => rfl
          | ok hash =>
            simp only [pure, Except.pure]

/-- The kind of hash follows from the body and the trailers. -/
theorem resolveHash_congr (hbody : other.body = request.body)
    (htrailers : other.trailers = request.trailers) (config : Config) :
    resolveHash other config = resolveHash request config := by
  unfold resolveHash sendsChunks
  rw [hbody, htrailers]

/-- So do all the terms, with the identity and the time. -/
theorem terms_congr (hbody : other.body = request.body) (htrailers : other.trailers = request.trailers)
    (clock : Clock) (config : Config) (identity : Identity) (shared : Shared) :
    terms clock config identity other shared = terms clock config identity request shared := by
  unfold terms
  rw [hbody, resolveHash_congr hbody htrailers]

/-- Of the state only that counts whether a one-shot body was opened. -/
theorem terms_congr_state (hconsumed : request.body.consumed later = request.body.consumed shared)
    (clock : Clock) (config : Config) (identity : Identity) :
    terms clock config identity request later = terms clock config identity request shared := by
  unfold terms
  rw [hconsumed]

/-- A retry sends the payload in the same way. -/
theorem resolveHash_of_isRetry (h : config.IsRetry config') (request : Request σ) :
    resolveHash request config' = resolveHash request config := by
  rw [h]
  rfl

/-! ## Finishing overwrites what finishing edited

Requests that differ in the fields of a signature only are finished to the same request. -/

/-- The list of signed headers, and whether there is one, follows from the headers. The query has no part in
it, though it is a part of the canonical request. -/
theorem signedHeaders_build_congr (hheaders : other.headers = request.headers) (config : Config)
    (hash : Bytes) :
    (CanonicalRequest.build other config hash).map (·.signedHeaders)
      = (CanonicalRequest.build request config hash).map (·.signedHeaders) := by
  unfold CanonicalRequest.build
  rw [hheaders]
  dsimp only
  split
  · rfl
  · dsimp only [bind, Except.bind]
    generalize (List.mapM _ (Canonical.signedHeaders request.headers config.headerFilter)
      : Outcome (List Bytes)) = lines
    cases lines with
    | error failure => rfl
    | ok lines => rfl

/-- Listing the signed headers settles the list that a request had before. The list is the same on both
sides, or the canonical request fails for the same reason. -/
theorem listed_congr (h : Request.AgreesOff [] [querySignedHeaders] other request) (config : Config)
    (hash : Bytes) :
    (do
      let canonical ← CanonicalRequest.build other config hash
      return other.setQuery querySignedHeaders canonical.signedHeaders : Outcome (Request σ))
      = do
        let canonical ← CanonicalRequest.build request config hash
        return request.setQuery querySignedHeaders canonical.signedHeaders := by
  have hheaders := h.headers
  rw [Fields.without_nil, Fields.without_nil] at hheaders
  have hlists := signedHeaders_build_congr hheaders config hash
  -- Both forms are built from the same headers, so either both lists exist or neither does.
  cases hother : CanonicalRequest.build other config hash with
  | error failure =>
    rw [hother] at hlists
    cases hrequest : CanonicalRequest.build request config hash with
    | error failure' =>
      rw [hrequest] at hlists
      exact congrArg Except.error (Except.error.inj hlists)
    | ok canonical' =>
      rw [hrequest] at hlists
      exact absurd hlists (by simp [Except.map])
  | ok canonical =>
    rw [hother] at hlists
    cases hrequest : CanonicalRequest.build request config hash with
    | error failure' =>
      rw [hrequest] at hlists
      exact absurd hlists (by simp [Except.map])
    | ok canonical' =>
      rw [hrequest] at hlists
      have hlist : canonical.signedHeaders = canonical'.signedHeaders := Except.ok.inj hlists
      show Except.ok _ = Except.ok _
      rw [hlist, (h.setQuery canonical'.signedHeaders).eq]

namespace Attempt

variable {attempt : Attempt σ} {hash : Bytes}

/-- A signature in the headers: all that is edited is removed or set on both sides. -/
theorem datedRequest_congr (hpresigned : config.presigned = false)
    (h : Request.AgreesOff (editedHeaders config attempt.hash.streaming) (editedQueries config) request
      attempt.request) (hash : Bytes) :
    Attempt.datedRequest { attempt with request } config hash = attempt.datedRequest config hash := by
  rw [editedHeaders_of_dated hpresigned, editedQueries_of_dated hpresigned] at h
  have hdated := (h.removeHeader.setHeader attempt.amzDate).removeHeader
  exact ((hdated.elimSetHeader tokenName (attempt.token? config)).iteSetHeader hash).eq

/-- A signature in the query: the same, with the list of signed headers as the last to be set. -/
theorem presignedRequest_congr (hpresigned : config.presigned = true) {streaming : Bool}
    (h : Request.AgreesOff (editedHeaders config streaming) (editedQueries config) request
      attempt.request) (hash : Bytes) :
    Attempt.presignedRequest { attempt with request } config hash
      = attempt.presignedRequest config hash := by
  rw [editedHeaders_of_presigned hpresigned, editedQueries_of_presigned hpresigned] at h
  have hremoved := h.removeHeader.removeQuery.setQuery Signature.algorithm
  have hdated := (hremoved.setQuery (attempt.credential config)).setQuery attempt.amzDate
  have hexpires := (hdated.setQuery (Bytes.signedDecimal (config.expiresAfter.getD 0))).removeQuery
  -- All but the list of signed headers is the same now, and the list follows from the headers.
  have hunlisted := (hexpires.elimSetQuery tokenName (attempt.token? config)).iteSetHeader hash
  exact listed_congr hunlisted config hash

/-- **Finishing does not show what an earlier finishing left.** Requests that differ at most in what
finishing edits are finished to the same. -/
theorem finish_congr
    (h : Request.AgreesOff (editedHeaders config attempt.hash.streaming) (editedQueries config) request
      attempt.request) (hash : Bytes) :
    Attempt.finish { attempt with request } config hash = attempt.finish config hash := by
  unfold finish
  cases hpresigned : config.presigned with
  | true =>
    rw [if_pos rfl, if_pos rfl, presignedRequest_congr hpresigned h]
    rfl
  | false =>
    rw [if_neg Bool.false_ne_true, if_neg Bool.false_ne_true, datedRequest_congr hpresigned h]
    rfl

end Attempt

/-! ## Hashing the payload again

A body that repeats itself has the same hash each time; one that does not is never read for it. -/

/-- The hash of a payload that was read to its end. -/
def drainedHash : Outcome (Option Bytes) → Outcome Bytes
  | .error failure => .error failure
  | .ok none => .error (.unsignableBody .notOpenable)
  | .ok (some text) => .ok (sha256Hex text)

section

variable [ByteSource σ] {body : Body σ} {hash : PayloadHash}

/-- The hash of a stream is that of what it says when it is read to its end, or the failure of reading it.
-/
theorem hashStream_eq (hreplayable : body.replayable = true) (shared : Shared) :
    hashStream body shared = (drainedHash (body.drain shared).1, (body.drain shared).2) := by
  unfold hashStream Body.drain
  rw [hreplayable, if_neg (by simp)]
  rcases body.openReader shared with ⟨outcome, opened⟩
  cases outcome with
  | error failure => rfl
  | ok reader =>
    cases reader with
    | none => rfl
    | some reader =>
      dsimp only
      rw [Reader.digest_eq]
      cases (reader.drain opened).1 with
      | error failure => rfl
      | ok text => rfl

/-- Hashing takes back no trailer, also where it fails. -/
theorem settledIn_hashPayload (body : Body σ) (hash : PayloadHash) (shared : Shared) :
    shared.SettledIn (hashPayload body hash shared).2 := by
  have hstream : shared.SettledIn (hashStream body shared).2 := by
    cases hreplayable : body.replayable with
    | false =>
      rw [hashStream, hreplayable]
      exact .refl shared
    | true =>
      rw [hashStream_eq hreplayable]
      exact body.settledIn_drain shared
  unfold hashPayload
  split
  · split
    · exact .refl shared
    · exact .refl shared
    · exact hstream
  · exact .refl shared

/-- A payload that replays is hashed to the same later, or fails in the same way. -/
theorem hashPayload_of_replays (hreplayable : body.replayable = true) (hreplays : body.Replays shared)
    (hlater : shared.SettledIn later) (hash : PayloadHash) :
    (hashPayload body hash later).1 = (hashPayload body hash shared).1 := by
  unfold hashPayload
  split
  · split
    · rfl
    · rfl
    · rw [hashStream_eq hreplayable, hashStream_eq hreplayable]
      exact congrArg drainedHash (hreplays later hlater)
  · rfl

/-- Only one kind of hash looks at the payload; the others are fixed texts. -/
theorem hashPayload_of_ne {hash : PayloadHash} (h : hash.kind ≠ .fromPayload) (body : Body σ)
    (shared : Shared) : hashPayload body hash shared = (.ok hash.literal, shared) := by
  unfold hashPayload
  rw [if_neg h]

/-- The payload of an encoding is not hashed. -/
theorem hashPayload_of_streaming {hash : PayloadHash} (h : hash.streaming = true) (body : Body σ)
    (shared : Shared) : hashPayload body hash shared = (.ok hash.literal, shared) := by
  refine hashPayload_of_ne (fun hkind => ?_) body shared
  rw [PayloadHash.streaming, hkind] at h
  exact Bool.false_ne_true h

/-- A one-shot payload is left unread. -/
theorem hashPayload_snd_of_one_shot (hreplayable : body.replayable = false) (hash : PayloadHash)
    (shared : Shared) :
    (hashPayload body hash shared).2 = shared := by
  unfold hashPayload
  split
  · split
    · rfl
    · rfl
    · rw [hashStream, hreplayable]
      rfl
  · rfl

/-- So a state in which it was hashed is the state before. -/
theorem hashPayload_of_one_shot {text : Bytes} (hreplayable : body.replayable = false)
    (h : hashPayload body hash shared = (.ok text, after)) : after = shared := by
  have hkept := hashPayload_snd_of_one_shot hreplayable hash shared
  rwa [h] at hkept

end

/-! ## Signing again -/

/-- A request that is no encoding is signed as it is. -/
theorem unwrapBody_of_payload_eq_none (h : request.body.payload? = none) :
    unwrapBody request = request := by
  unfold unwrapBody
  rw [h]

/-- The kind of hash is one of the terms. -/
theorem resolveHash_of_terms {credentials : Credentials} {time : Instant} {hash : PayloadHash}
    (h : terms clock config identity request shared = .ok (credentials, time, hash)) :
    resolveHash request config = .ok hash := by
  simp only [terms] at h
  obtain ⟨_, -, h⟩ := Outcome.bind_eq_ok.mp h
  obtain ⟨_, -, h⟩ := Outcome.bind_eq_ok.mp h
  split at h
  · exact absurd h Outcome.throw_ne_ok
  · obtain ⟨_, -, h⟩ := Outcome.bind_eq_ok.mp h
    obtain ⟨hash', hhash, h⟩ := Outcome.bind_eq_ok.mp h
    have hsame : hash' = hash := congrArg (·.2.2) (Outcome.pure_eq_ok.mp h)
    rw [hhash, hsame]

/-- The body is sent as it is. -/
structure SentPlain (request : Request σ) (config : Config) : Prop where
  payload : request.body.payload? = none
  hash : ∀ hash, resolveHash request config = .ok hash → hash.streaming = false

/-- A retry decides about the body in the same way. -/
theorem SentPlain.retry (h : SentPlain request config) (hretry : config.IsRetry config') :
    SentPlain request config' where
  payload := h.payload
  hash := by
    intro hash hhash
    rw [resolveHash_of_isRetry hretry] at hhash
    exact h.hash hash hhash

/-- A request that is sent plain is prepared as it is, whatever headers and queries it has. So an attempt at
another request with this body is the same but for the request. -/
theorem SentPlain.prepare_eq (h : SentPlain request config) (hbody : other.body = request.body)
    (htrailers : other.trailers = request.trailers) (clock : Clock) (identity : Identity)
    (shared : Shared) :
    prepare clock config identity other shared
      = (prepare clock config identity request shared).map
        fun attempt => { attempt with request := other } := by
  have hother : unwrapBody other = other := unwrapBody_of_payload_eq_none (by rw [hbody, h.payload])
  rw [Signer.prepare_eq, Signer.prepare_eq, hother, unwrapBody_of_payload_eq_none h.payload,
    terms_congr hbody htrailers]
  cases hterms : terms clock config identity request shared with
  | error failure => rfl
  | ok terms =>
    obtain ⟨credentials, time, hash⟩ := terms
    have hstreaming := h.hash hash (resolveHash_of_terms hterms)
    simp only [bind, Except.bind, hstreaming]
    rfl

/-- An attempt at a body that is sent as it is leaves the request alone. -/
theorem SentPlain.of_prepare (h : SentPlain request config) {attempt : Attempt σ}
    (hprepare : prepare clock config identity request shared = .ok attempt) :
    attempt.request = request ∧ attempt.hash.streaming = false := by
  have hprepared := prepare_ok hprepare
  rw [← unwrapBody_of_payload_eq_none h.payload]
  have hhash := hprepared.hash
  rw [unwrapBody_of_payload_eq_none h.payload] at hhash
  have hstreaming := h.hash _ hhash
  have hrequest := hprepared.request
  rw [hstreaming] at hrequest
  exact ⟨(Outcome.pure_eq_ok.mp hrequest).symm, hstreaming⟩

/-- Signing a request that differs in what a signature edits is signing the request. Preparing carries the
difference along, and finishing overwrites it. -/
theorem SentPlain.sign_congr [ByteSource σ] (h : SentPlain request config)
    (hother : Request.AgreesOff (editedHeaders config false) (editedQueries config) other request)
    (clock : Clock) (identity : Identity) (shared : Shared) :
    sign clock config identity other shared = sign clock config identity request shared := by
  unfold sign
  rw [h.prepare_eq hother.body hother.trailers]
  cases hprepare : prepare clock config identity request shared with
  | error failure => rfl
  | ok attempt =>
    obtain ⟨hrequest, hstreaming⟩ := h.of_prepare hprepare
    have hfinish (hash : Bytes) :
        Attempt.finish { attempt with request := other } config hash = attempt.finish config hash := by
      refine attempt.finish_congr ?_ hash
      rw [hstreaming, hrequest]
      exact hother
    have hbody : other.body = attempt.request.body := by rw [hrequest, hother.body]
    simp only [Except.map, hbody, hfinish, hstreaming]
    rfl

/-- The outcome of signing follows from what the payload says, not from when it is asked. Only what was
settled in the meantime is allowed to differ. -/
theorem SentPlain.sign_of_replays [ByteSource σ] (h : SentPlain request config)
    (hreplayable : request.body.replayable = true) (hreplays : request.body.Replays shared)
    (hlater : shared.SettledIn later) (clock : Clock) (identity : Identity) :
    (sign clock config identity request later).1 = (sign clock config identity request shared).1 := by
  -- A body that can be read again is never taken for read.
  have hunread (state : Shared) : request.body.consumed state = false := by
    rw [Body.consumed, hreplayable]
    rfl
  have hprepare : prepare clock config identity request later
      = prepare clock config identity request shared := by
    rw [Signer.prepare_eq, Signer.prepare_eq, unwrapBody_of_payload_eq_none h.payload,
      terms_congr_state ((hunread later).trans (hunread shared).symm)]
  unfold sign
  rw [hprepare]
  cases hattempt : prepare clock config identity request shared with
  | error failure => rfl
  | ok attempt =>
    obtain ⟨hrequest, hstreaming⟩ := h.of_prepare hattempt
    -- Hashing is the only step that still depends on the state, and it reads what it read before.
    have hhash := hashPayload_of_replays hreplayable hreplays hlater attempt.hash
    rw [← hrequest] at hhash
    dsimp only
    generalize hashPayload attempt.request.body attempt.hash later = hashed at hhash ⊢
    generalize hashPayload attempt.request.body attempt.hash shared = hashed' at hhash ⊢
    obtain ⟨outcome, later'⟩ := hashed
    obtain ⟨outcome', shared'⟩ := hashed'
    obtain rfl : outcome = outcome' := hhash
    cases outcome with
    | error failure => rfl
    | ok hash =>
      dsimp only
      cases attempt.finish config hash with
      | error failure => rfl
      | ok finished =>
        simp only [hstreaming]
        rfl

/-- What an attempt that returned leaves of the request and of the state. Only what finishing edits is
different in the request, and a one-shot body is untouched. -/
theorem SentPlain.sign_ok [ByteSource σ] (h : SentPlain request config) {signed : SignedRequest σ}
    (hsign : sign clock config identity request shared = (.ok signed, after)) :
    Request.AgreesOff (editedHeaders config false) (editedQueries config) signed.request request
      ∧ shared.SettledIn after ∧ (request.body.replayable = false → after = shared) := by
  obtain ⟨attempt, hash, hashed, finished, hprepare, hhash, hfinish, hsigned⟩ := sign_steps hsign
  obtain ⟨hrequest, hstreaming⟩ := h.of_prepare hprepare
  rw [hstreaming, if_neg Bool.false_ne_true] at hsigned
  obtain ⟨rfl, rfl⟩ := Prod.mk.inj hsigned
  refine ⟨?_, ?_, fun hreplayable => ?_⟩
  · have hedited := Attempt.finish_edited hfinish
    rw [hstreaming, hrequest] at hedited
    exact hedited.agreesOff
  · have hsettled := settledIn_hashPayload attempt.request.body attempt.hash shared
    rwa [hhash] at hsettled
  · rw [← hrequest] at hreplayable
    exact hashPayload_of_one_shot hreplayable hhash

/-- **Signing again leaves no trace of the earlier signature.** Where the body is sent as it is, a
signed request is signed again, at any time, like the request that it was made from. If the body
replays what it holds, the outcome is also that of signing the request in place of the first time. -/
theorem sign_again [ByteSource σ] (hretry : config.IsRetry config') (h : SentPlain request config)
    {first : SignedRequest σ} (hfirst : sign clock config identity request shared = (.ok first, after)) :
    (∀ later, sign clock' config' identity' first.request later
        = sign clock' config' identity' request later)
      ∧ ((request.body.replayable = true → request.body.Replays shared) →
        (sign clock' config' identity' first.request after).1
          = (sign clock' config' identity' request shared).1) := by
  obtain ⟨hagrees, hsettled, hone_shot⟩ := h.sign_ok hfirst
  have h' := h.retry hretry
  have hagrees' : Request.AgreesOff (editedHeaders config' false) (editedQueries config') first.request
      request := by
    rw [hretry]
    exact hagrees
  have hagain (state : Shared) : sign clock' config' identity' first.request state
      = sign clock' config' identity' request state := h'.sign_congr hagrees' clock' identity' state
  refine ⟨hagain, fun hreplays => ?_⟩
  rw [hagain]
  cases hreplayable : request.body.replayable with
  | true => exact h'.sign_of_replays hreplayable (hreplays hreplayable) hsettled clock' identity'
  | false => rw [hone_shot hreplayable]

/-- A stream that replays, and the headers of a signature that nobody knows of. -/
def retriedRequest : Request MemorySource where
  method := .put
  path := ascii "/bucket/key"
  headers := Fields.ofList .caseInsensitive
    [(ascii "X-AMZ-Security-Token", ascii "stale"), (ascii "Host", ascii "example.com"),
      (ascii "x-amz-date", ascii "20130524T000000Z"), (ascii "x-amz-date", ascii "stale")]
  body := .stream 0 (some 3) true fun _ => some ⟨ascii "abc"⟩

def firstConfig : Config where
  region := ascii "us-east-1"
  service := ascii "s3"
  hashHeader := true

/-- Another region, another day and no token. -/
def retryConfig : Config :=
  { firstConfig with region := ascii "eu-west-1", signingDate := some ⟨86400000000000⟩, omitToken := true }

def tokenCredentials : Credentials where
  accessKeyId := ascii "AKIDEXAMPLE"
  secretAccessKey := ascii "secret"
  sessionToken := some (ascii "token")

/-- A retry on another day and for another region, without the token that the first attempt sent. -/
theorem sign_again_without_token :
    firstConfig.IsRetry retryConfig ∧ SentPlain retriedRequest firstConfig
      ∧ retriedRequest.body.Replays { openings := [0] }
      ∧ ∃ first after, sign ⟨⟨0⟩, none⟩ firstConfig (.credentials tokenCredentials) retriedRequest
          { openings := [0] } = (.ok first, after)
        ∧ (∀ later, sign ⟨⟨0⟩, none⟩ retryConfig (.credentials tokenCredentials) first.request later
          = sign ⟨⟨0⟩, none⟩ retryConfig (.credentials tokenCredentials) retriedRequest later)
        ∧ (sign ⟨⟨0⟩, none⟩ retryConfig (.credentials tokenCredentials) first.request after).1
          = (sign ⟨⟨0⟩, none⟩ retryConfig (.credentials tokenCredentials) retriedRequest
            { openings := [0] }).1 := by
  have hretry : firstConfig.IsRetry retryConfig := rfl
  have hplain : SentPlain retriedRequest firstConfig := by
    refine ⟨rfl, fun hash hhash => ?_⟩
    have hkind : resolveHash retriedRequest firstConfig = .ok { kind := .fromPayload } := rfl
    rw [hkind] at hhash
    rw [← Except.ok.inj hhash]
    rfl
  have hreplays : retriedRequest.body.Replays { openings := [0] } := Body.replays_stream _ _ _ _
  have hok : (sign ⟨⟨0⟩, none⟩ firstConfig (.credentials tokenCredentials) retriedRequest
      { openings := [0] }).1.isOk = true := by decide +kernel
  obtain ⟨first, after, hfirst⟩ := exists_signed_of_isOk hok
  obtain ⟨hlater, hsame⟩ := sign_again hretry hplain hfirst
  exact ⟨hretry, hplain, hreplays, first, after, hfirst, hlater, hsame fun _ => hreplays⟩

end Signer

end SigV4
