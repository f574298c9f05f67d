import SigV4.Proofs.Signing

/-!
# What was signed verifies

A verifier has the request that was signed, the secret and the hash of the payload. It takes the
date from the request, builds the canonical form anew and signs that. Signing edits the request
before, between and after two canonicalisations:

* the headers that are signed are listed in a query that is itself signed, so the list is that of an
  earlier canonical form (`Attempt.presignedRequest_ok`);
* `Authorization` and `X-Amz-Signature` are written and a body is encoded when the signature is known
  already, none of which is seen by the canonical form (`Attempt.finish_ok`, `sign_verifies`).
-/

namespace SigV4.Signer

variable {σ : Type}

/-! ## What a signed request says of its signature

A signature is carried in the query or in two headers, depending on the mode. -/

/-- A presigned request carries the signature, and what it is checked with, in its query. -/
structure InQuery (request : Request σ) (credential date signedHeaders signature : Bytes) :
    Prop where
  algorithm : request.queries.values queryAlgorithm = [Signature.algorithm]
  credential : request.queries.values queryCredential = [credential]
  date : request.queries.values dateName = [date]
  signedHeaders : request.queries.values querySignedHeaders = [signedHeaders]
  signature : request.queries.values Canonical.signatureParameter = [signature]

/-- Any other signed request carries them in two headers. -/
structure InHeaders (request : Request σ) (credential date signedHeaders signature : Bytes) :
    Prop where
  date : request.headers.values dateName = [date]
  authorization : request.headers.values authorization =
    [Signature.algorithm ++ ascii " Credential=" ++ credential
      ++ ascii ", SignedHeaders=" ++ signedHeaders ++ ascii ", Signature=" ++ signature]

/-- How a signed request carries its signature depends on the mode only. -/
def Carries (config : Config) (request : Request σ)
    (credential date signedHeaders signature : Bytes) : Prop :=
  if config.presigned then InQuery request credential date signedHeaders signature
  else InHeaders request credential date signedHeaders signature

/-- The signature of a request is what signing its canonical form yields, with the date that the
request carries and a key for the first eight bytes of it. -/
structure Verifies (config : Config) (credentials : Credentials) (hash : Bytes)
    (signed : SignedRequest σ) (date : Bytes) (canonical : CanonicalRequest) : Prop where
  rebuilt : CanonicalRequest.build signed.request config hash = .ok canonical
  signature : signed.signature =
    Signature.sign
      (Signature.deriveKey credentials.secretAccessKey (date.take 8) config.region config.service)
      (Signature.stringToSign date (Signature.scope (date.take 8) config.region config.service)
        canonical.text)
  carried : Carries config signed.request
    (credentials.accessKeyId ++ ascii "/"
      ++ Signature.scope (date.take 8) config.region config.service)
    date canonical.signedHeaders signed.signature

theorem Carries.with_body {config : Config} {request : Request σ}
    {credential date signedHeaders signature : Bytes}
    (h : Carries config request credential date signedHeaders signature) (body : Body σ) :
    Carries config { request with body } credential date signedHeaders signature := by
  unfold Carries at *
  split at h
  next hpresigned =>
    rw [if_pos hpresigned]
    exact ⟨h.algorithm, h.credential, h.date, h.signedHeaders, h.signature⟩
  next hpresigned =>
    rw [if_neg hpresigned]
    exact ⟨h.date, h.authorization⟩

/-- A request verifies whatever its body is, as long as the hash is the same. -/
theorem Verifies.with_body {config : Config} {credentials : Credentials} {hash : Bytes}
    {signed : SignedRequest σ} {date : Bytes} {canonical : CanonicalRequest}
    (h : Verifies config credentials hash signed date canonical) (body : Body σ) :
    Verifies config credentials hash
      { signed with request := { signed.request with body } } date canonical where
  rebuilt := (CanonicalRequest.build_congr rfl rfl rfl rfl).trans h.rebuilt
  signature := h.signature
  carried := h.carried.with_body body

/-! ## Finishing an attempt

The canonical form is computed before the signature is written, so it has to be shown that writing
it changes nothing of that form. -/

/-- Listing the headers and adding the signature completes a query. The two parameters have names of their
own, so those that were set before are still there. -/
theorem InQuery.of_unlisted {unlisted : Request σ} {credential date : Bytes}
    (halgorithm : unlisted.queries.values queryAlgorithm = [Signature.algorithm])
    (hcredential : unlisted.queries.values queryCredential = [credential])
    (hdate : unlisted.queries.values dateName = [date]) (signedHeaders signature : Bytes) :
    InQuery ((unlisted.setQuery querySignedHeaders signedHeaders).setQuery
      Canonical.signatureParameter signature) credential date signedHeaders signature := by
  have hkept {name : Bytes} (hlist : querySignedHeaders ≠ name)
      (hsignature : Canonical.signatureParameter ≠ name) :
      ((unlisted.queries.set querySignedHeaders signedHeaders).set Canonical.signatureParameter
        signature).values name = unlisted.queries.values name := by
    rw [Fields.values_set_of_ne hsignature, Fields.values_set_of_ne hlist]
  refine ⟨?_, ?_, ?_, ?_, ?_⟩
  · exact (hkept (by decide) (by decide)).trans halgorithm
  · exact (hkept (by decide) (by decide)).trans hcredential
  · exact (hkept (by decide) (by decide)).trans hdate
  · exact (Fields.values_set_of_ne (by decide) _ _).trans (Fields.values_set_self _ _ _)
  · exact Fields.values_set_self _ _ _

namespace Attempt

variable {attempt : Attempt σ} {config : Config} {hash : Bytes} {request : Request σ}
  {finished : SignedRequest σ}

/-- Sending the token leaves queries of other names as they were. -/
theorem values_setQuery_token {name : Bytes} (hname : tokenName ≠ name) (token : Option Bytes)
    (request : Request σ) :
    (token.elim request fun token => request.setQuery tokenName token).queries.values name
      = request.queries.values name := by
  cases token with
  | none => rfl
  | some token => exact Fields.values_set_of_ne hname request.queries token

/-- Sending the token leaves headers of other names as they were. -/
theorem values_setHeader_token {name : Bytes} (hname : toLower tokenName ≠ toLower name)
    (token : Option Bytes) (request : Request σ) :
    (token.elim request fun token => request.setHeader tokenName token).headers.values name
      = request.headers.values name := by
  cases token with
  | none => rfl
  | some token => exact Fields.values_set_of_ne hname request.headers token

/-- The headers that a presigned request lists are those of the request without the list, which
carries the other parameters already. -/
theorem presignedRequest_ok (h : attempt.presignedRequest config hash = .ok request) :
    ∃ unlisted canonical, CanonicalRequest.build unlisted config hash = .ok canonical
      ∧ request = unlisted.setQuery querySignedHeaders canonical.signedHeaders
      ∧ unlisted.queries.values queryAlgorithm = [Signature.algorithm]
      ∧ unlisted.queries.values queryCredential = [attempt.credential config]
      ∧ unlisted.queries.values dateName = [attempt.amzDate] := by
  obtain ⟨canonical, hcanonical, h⟩ := Outcome.bind_eq_ok.mp h
  refine ⟨_, canonical, hcanonical, (Outcome.pure_eq_ok.mp h).symm, ?_⟩
  -- The hash goes into a header, if at all, so the queries are those that the token left.
  have hqueries (sent : Request σ) :
      (if config.hashHeader then sent.setHeader contentHash hash else sent).queries
        = sent.queries := by
    split
    · rfl
    · rfl
  -- The parameters have different names, so each keeps its value when another is set.
  have htoken : tokenName ≠ dateName ∧ tokenName ≠ queryCredential ∧ tokenName ≠ queryAlgorithm := by
    decide
  have hexpires : queryExpires ≠ dateName ∧ queryExpires ≠ queryCredential
      ∧ queryExpires ≠ queryAlgorithm := by
    decide
  have hdate : dateName ≠ queryCredential ∧ dateName ≠ queryAlgorithm := by decide
  have hcredential : queryCredential ≠ queryAlgorithm := by decide
  rw [hqueries]
  refine ⟨?_, ?_, ?_⟩
  · rw [values_setQuery_token htoken.2.2, Request.removeQuery_queries,
      Fields.values_erase_of_ne htoken.2.2, Request.setQuery_queries,
      Fields.values_set_of_ne hexpires.2.2, Request.setQuery_queries,
      Fields.values_set_of_ne hdate.2, Request.setQuery_queries,
      Fields.values_set_of_ne hcredential]
    exact Fields.values_set_self _ _ _
  · rw [values_setQuery_token htoken.2.1, Request.removeQuery_queries,
      Fields.values_erase_of_ne htoken.2.1, Request.setQuery_queries,
      Fields.values_set_of_ne hexpires.2.1, Request.setQuery_queries,
      Fields.values_set_of_ne hdate.1]
    exact Fields.values_set_self _ _ _
  · rw [values_setQuery_token htoken.1, Request.removeQuery_queries,
      Fields.values_erase_of_ne htoken.1, Request.setQuery_queries,
      Fields.values_set_of_ne hexpires.1]
    exact Fields.values_set_self _ _ _

/-- A request that is signed in a header has exactly one date, that of the attempt. -/
theorem datedRequest_date (attempt : Attempt σ) (config : Config) (hash : Bytes) :
    (attempt.datedRequest config hash).headers.values dateName = [attempt.amzDate] := by
  have htoken : toLower tokenName ≠ toLower dateName := by decide
  have hhash (sent : Request σ) :
      (if config.hashHeader || attempt.hash.streaming then sent.setHeader contentHash hash
        else sent).headers.values dateName = sent.headers.values dateName := by
    split
    · exact Fields.values_set_of_ne (by decide) sent.headers hash
    · rfl
  rw [datedRequest, hhash, values_setHeader_token htoken, Request.removeHeader_headers,
    Fields.values_erase_of_ne htoken]
  exact Fields.values_set_self _ _ _

/-- The signature, with everything that the verifier computes for himself spelled out. -/
theorem signature_eq (attempt : Attempt σ) (config : Config) (canonical : CanonicalRequest) :
    attempt.signature config canonical =
      Signature.sign
        (Signature.deriveKey attempt.credentials.secretAccessKey (attempt.amzDate.take 8)
          config.region config.service)
        (Signature.stringToSign attempt.amzDate
          (Signature.scope (attempt.amzDate.take 8) config.region config.service)
          canonical.text) := by
  rw [signature, signingKey, scope, date8]

/-- **What was finished verifies.** In both modes the request is edited once more when its signature is
known, at a place that the canonical form leaves out. -/
theorem finish_ok (h : attempt.finish config hash = .ok finished) :
    ∃ canonical, Verifies config attempt.credentials hash finished attempt.amzDate canonical := by
  simp only [finish] at h
  split at h
  next hpresigned =>
    obtain ⟨listed, hlisted, h⟩ := Outcome.bind_eq_ok.mp h
    obtain ⟨canonical, hcanonical, h⟩ := Outcome.bind_eq_ok.mp h
    obtain rfl := Outcome.pure_eq_ok.mp h
    obtain ⟨unlisted, earlier, hearlier, rfl, halgorithm, hcredential, hdate⟩ :=
      presignedRequest_ok hlisted
    -- The list was written after the earlier canonical form, and only into the query.
    have hlist : canonical.signedHeaders = earlier.signedHeaders :=
      (CanonicalRequest.signedHeaders_of_build hcanonical).trans
        (CanonicalRequest.signedHeaders_of_build hearlier).symm
    refine ⟨canonical, ?_, signature_eq attempt config canonical, ?_⟩
    · rw [← hcanonical]
      refine CanonicalRequest.build_congr rfl rfl ?_ rfl
      rw [hpresigned]
      exact Canonical.canonicalQuery_set_signature _ _
    · rw [Carries, if_pos hpresigned, hlist]
      exact .of_unlisted halgorithm hcredential hdate _ _
  next hpresigned =>
    obtain ⟨canonical, hcanonical, h⟩ := Outcome.bind_eq_ok.mp h
    obtain rfl := Outcome.pure_eq_ok.mp h
    refine ⟨canonical, ?_, signature_eq attempt config canonical, ?_⟩
    · rw [← hcanonical]
      -- The signature goes into a header that is never signed.
      refine CanonicalRequest.build_congr rfl rfl rfl ?_
      exact Canonical.signedHeaders_set_of_skipped Canonical.isSkipped_authorization _ _ _
    · rw [Carries, if_neg hpresigned]
      refine ⟨?_, Fields.values_set_self _ _ _⟩
      exact (Fields.values_set_of_ne (by decide) _ _).trans (datedRequest_date attempt config hash)

end Attempt

/-! ## Signing -/

/-- **What was signed verifies.** The signature that is returned is that of the request that is
returned, for the payload hash that the request was signed with and for the date of the signing. -/
theorem sign_verifies [ByteSource σ] {clock : Clock} {config : Config} {identity : Identity}
    {request : Request σ} {shared shared' : Shared} {signed : SignedRequest σ}
    (h : sign clock config identity request shared = (.ok signed, shared')) :
    ∃ credentials payloadHash hash canonical,
      identity = .credentials credentials
      ∧ resolveHash (unwrapBody request) config = .ok payloadHash
      ∧ (hashPayload (unwrapBody request).body payloadHash shared).1 = .ok hash
      ∧ Verifies config credentials hash signed
        (Timestamp.amzDate (config.signingDate.getD clock.now)) canonical := by
  obtain ⟨attempt, hash, hashed, finished, hprepared, hhash, hfinish, hsigned⟩ := sign_ok h
  obtain ⟨canonical, hverifies⟩ := Attempt.finish_ok hfinish
  rw [hprepared.amzDate] at hverifies
  refine ⟨attempt.credentials, attempt.hash, hash, canonical, hprepared.identity_eq, hprepared.hash,
    ?_, ?_⟩
  · rw [← hprepared.body_eq, hhash]
  · split at hsigned
    · -- The body is encoded with the signature, so after all that was signed.
      obtain ⟨body, hbody⟩ := encodeBody_fst finished (attempt.chunkContext config finished) hashed
      have hsigned' : signed = _ := (congrArg Prod.fst hsigned).trans hbody
      rw [hsigned']
      exact hverifies.with_body body
    · have hsigned' : signed = finished := congrArg Prod.fst hsigned
      rw [hsigned']
      exact hverifies

/-- Chunks are signed, and of the headers that are free to choose only one is. -/
def sampleConfig : Config where
  region := ascii "us-east-1"
  service := ascii "s3"
  hashOverride := some { kind := .signedChunks }
  headerFilter := some fun name => name == ascii "content-type"

/-- Credentials without a session token. -/
def sampleCredentials : Credentials where
  accessKeyId := ascii "AKIDEXAMPLE"
  secretAccessKey := ascii "secret"

/-- A request with the headers of an earlier signature. -/
def sampleRequest : Request MemorySource where
  method := .put
  path := ascii "/bucket/key"
  headers := Fields.ofList .caseInsensitive
    [(ascii "authorization", ascii "AWS4-HMAC-SHA256"), (ascii "HOST", ascii "example.com"),
      (ascii "x-amz-date", ascii "20130524T000000Z"), (ascii "Accept", ascii "text/plain")]
  body := .bytes (ascii "abc")

/-- The stale date and authorization are replaced, and the request verifies. -/
theorem sign_verifies_of_stale_headers :
    ∃ signed shared', sign ⟨⟨0⟩, none⟩ sampleConfig (.credentials sampleCredentials) sampleRequest {}
        = (.ok signed, shared')
      ∧ ∃ credentials payloadHash hash canonical,
        Identity.credentials sampleCredentials = .credentials credentials
        ∧ resolveHash (unwrapBody sampleRequest) sampleConfig = .ok payloadHash
        ∧ (hashPayload (unwrapBody sampleRequest).body payloadHash {}).1 = .ok hash
        ∧ Verifies sampleConfig credentials hash signed
          (Timestamp.amzDate (sampleConfig.signingDate.getD (Clock.now ⟨⟨0⟩, none⟩))) canonical := by
  have hok : (sign ⟨⟨0⟩, none⟩ sampleConfig (.credentials sampleCredentials) sampleRequest
      {}).1.isOk = true := by decide +kernel
  cases hsign : sign ⟨⟨0⟩, none⟩ sampleConfig (.credentials sampleCredentials) sampleRequest {} with
  | mk outcome shared' =>
    cases outcome with
    | error failure => simp [hsign, Except.isOk, Except.toBool] at hok
    | ok signed => exact ⟨signed, shared', rfl, sign_verifies hsign⟩

end SigV4.Signer
