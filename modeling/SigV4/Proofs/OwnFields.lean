import SigV4.Proofs.Resigning
import Mathlib.Tactic.SplitIfs

/-!
# What signing leaves alone

A signature owns a few headers, or a few query parameters, and the announcement of an encoding owns
some more headers. Everything else of a request is sent as it was given:

* **`finish_parameters`**: a presigned request has each parameter of its signature once, and the token
  exactly if it is sent.
* **`sign_edited`**: all edits of a signing are edits of fields that it owns.
* **`sign_changes_own_fields`**: so whatever has another name is there afterwards, in its order and in
  its spelling, and nothing else is.
-/

namespace SigV4

namespace Fields

variable {order : KeyOrder}

/-- Setting a name gives it one value, in whatever spelling it is looked up, and leaves the others alone. -/
theorem values_set (fields : Fields order) (name value other : Bytes) :
    (fields.set name value).values other
      = if order.rank name = order.rank other then [value] else fields.values other := by
  split
  next h => rw [← values_eq_of_rank_eq h, values_set_self]
  next h => exact values_set_of_ne h fields value

/-- Erasing a name takes all its values and leaves the others alone. -/
theorem values_erase (fields : Fields order) (name other : Bytes) :
    (fields.erase name).values other
      = if order.rank name = order.rank other then [] else fields.values other := by
  split
  next h => rw [← values_eq_of_rank_eq h, values_erase_self]
  next h => exact values_erase_of_ne h fields

end Fields

namespace Request

variable {σ : Type} (request : Request σ) (name value other : Bytes)

/-- Setting a parameter, as names of parameters are compared byte by byte. -/
theorem values_setQuery : (request.setQuery name value).queries.values other
    = if name = other then [value] else request.queries.values other :=
  Fields.values_set request.queries name value other

theorem values_removeQuery : (request.removeQuery name).queries.values other
    = if name = other then [] else request.queries.values other :=
  Fields.values_erase request.queries name other

end Request

theorem Request.Edited.weaken {σ : Type} {headers queries headers' queries' : List Bytes}
    {a b : Request σ} (h : Edited headers queries a b) (hheaders : headers ⊆ headers')
    (hqueries : queries ⊆ queries') : Edited headers' queries' a b :=
  ⟨h.method, h.version, h.path, h.body, h.trailers, h.headers.mono hheaders, h.queries.mono hqueries⟩

namespace Signer

variable {σ : Type} {clock : Clock} {config : Config} {identity : Identity} {request : Request σ}
  {shared after : Shared}

/-! ## Names with an owner -/

/-- The headers of a signature; one in the query leaves the headers of date and token to others. -/
def signatureHeaders (presigned : Bool) : List Bytes :=
  if presigned then [authorization, contentHash]
  else [authorization, dateName, tokenName, contentHash]

/-- The headers that announce an encoding. -/
def encodingHeaders : List Bytes :=
  [contentEncoding, contentLength, transferEncoding, decodedLength, trailerNames]

def ownHeaders (presigned encoded : Bool) : List Bytes :=
  signatureHeaders presigned ++ if encoded then encodingHeaders else []

/-- The parameters of a signature in the query. -/
def signatureQueries : List Bytes :=
  [queryAlgorithm, queryCredential, dateName, queryExpires, tokenName, querySignedHeaders,
    Canonical.signatureParameter]

def ownQueries (presigned : Bool) : List Bytes := if presigned then signatureQueries else []

/-- Finishing edits headers of the signature only, in either mode. -/
theorem editedHeaders_subset_own (config : Config) (streaming encoded : Bool) :
    editedHeaders config streaming ⊆ ownHeaders config.presigned encoded := by
  refine List.subset_append_of_subset_left _ ?_
  cases hpresigned : config.presigned with
  | true =>
    rw [editedHeaders_of_presigned hpresigned]
    split
    · decide
    · decide
  | false => exact editedHeaders_subset config streaming

/-- Announcing an encoding edits its own headers only. -/
theorem chunkHeaders_subset_own (presigned : Bool) : chunkHeaders ⊆ ownHeaders presigned true := by
  cases presigned <;> decide

/-- Finishing edits parameters of the signature, and none where it goes into a header. -/
theorem editedQueries_subset_own (config : Config) :
    editedQueries config ⊆ ownQueries config.presigned := by
  cases hpresigned : config.presigned with
  | true =>
    rw [editedQueries_of_presigned hpresigned]
    decide
  | false =>
    rw [editedQueries_of_dated hpresigned]
    exact List.nil_subset _

/-- All that a signing edits it owns, and the body is encoded or left as it is. The edits are those of the
announcement, if there is one, and then those of finishing. -/
theorem sign_edited [ByteSource σ] {signed : SignedRequest σ}
    (h : sign clock config identity request shared = (.ok signed, after))
    (hfresh : request.body.payload? = none) :
    ∃ finished, Request.Edited (ownHeaders config.presigned signed.request.body.payload?.isSome)
        (ownQueries config.presigned) request finished
      ∧ signed.request = { finished with body := signed.request.body }
      ∧ (signed.request.body = request.body ∨ signed.request.body.payload? = some request.body) := by
  obtain ⟨attempt, hash, hashed, finished, hprepared, -, hfinish, hsigned⟩ := sign_ok h
  have hfinished := Attempt.finish_edited hfinish
  have hrequest := hprepared.request
  rw [unwrapBody_of_payload_eq_none hfresh] at hrequest
  refine ⟨finished.request, ?_⟩
  -- An encoded body has its headers announced first, and any other request is only finished.
  split at hsigned
  next hstreaming =>
    obtain ⟨rfl, -⟩ := Prod.mk.inj hsigned
    rw [if_pos hstreaming] at hrequest
    have hannounced := addChunkHeaders_edited (announceChunks_ok hrequest).2
    have hedited : Request.Edited (ownHeaders config.presigned true) (ownQueries config.presigned)
        request finished.request :=
      (hannounced.weaken (chunkHeaders_subset_own _) (List.nil_subset _)).trans
        (hfinished.weaken (editedHeaders_subset_own _ _ _) (editedQueries_subset_own _))
    exact ⟨hedited, rfl, .inr (congrArg some hedited.body)⟩
  next hplain =>
    obtain ⟨rfl, -⟩ := Prod.mk.inj hsigned
    rw [if_neg hplain] at hrequest
    rw [← Outcome.pure_eq_ok.mp hrequest] at hfinished
    exact ⟨hfinished.weaken (editedHeaders_subset_own _ _ _) (editedQueries_subset_own _), rfl,
      .inl hfinished.body⟩

/-! ## The parameters of a signature in the query -/

/-- The session token that is sent with a signature. -/
def sentToken (config : Config) (credentials : Credentials) : Option Bytes :=
  if config.omitToken then none else credentials.sessionToken

/-- The queries of a signature each have one value, but for a token that is not sent. -/
structure Parameters (config : Config) (credentials : Credentials) (queries : Queries) : Prop where
  once : ∀ name ∈ signatureQueries, name ≠ tokenName → ∃ value, queries.values name = [value]
  token : queries.values tokenName = (sentToken config credentials).toList

namespace Attempt

variable {attempt : Attempt σ} {hash : Bytes} {finished : SignedRequest σ}

/-- The value that each edit of the query leaves, the last edit first. A name that no edit sets keeps its
values. -/
theorem finish_values (hpresigned : config.presigned = true)
    (h : attempt.finish config hash = .ok finished) :
    ∃ list, ∀ name, finished.request.queries.values name
      = if Canonical.signatureParameter = name then [finished.signature]
        else if querySignedHeaders = name then [list]
        else if tokenName = name then (sentToken config attempt.credentials).toList
        else if queryExpires = name then [Bytes.signedDecimal (config.expiresAfter.getD 0)]
        else if dateName = name then [attempt.amzDate]
        else if queryCredential = name then [attempt.credential config]
        else if queryAlgorithm = name then [Signature.algorithm]
        else attempt.request.queries.values name := by
  simp only [finish, hpresigned, if_true] at h
  obtain ⟨listed, hlisted, h⟩ := Outcome.bind_eq_ok.mp h
  obtain ⟨canonical, -, h⟩ := Outcome.bind_eq_ok.mp h
  obtain rfl := Outcome.pure_eq_ok.mp h
  obtain ⟨earlier, -, hlisted⟩ := Outcome.bind_eq_ok.mp hlisted
  obtain rfl := Outcome.pure_eq_ok.mp hlisted
  refine ⟨earlier.signedHeaders, fun name => ?_⟩
  -- The hash goes into a header, so it is of no account to the query.
  have hhash (sent : Request σ) :
      (if config.hashHeader then sent.setHeader contentHash hash else sent).queries = sent.queries := by
    split
    · rfl
    · rfl
  -- The token is removed at the start, so it has no value if none is set.
  have htoken (sent : Request σ) (hsent : sent.queries.values tokenName = []) :
      ((attempt.token? config).elim sent fun token => sent.setQuery tokenName token).queries.values name
        = if tokenName = name then (sentToken config attempt.credentials).toList
          else sent.queries.values name := by
    rw [sentToken, ← token?]
    cases attempt.token? config with
    | none =>
      split
      next htoken => rwa [← htoken]
      next => rfl
    | some token => exact sent.values_setQuery tokenName token name
  rw [Request.values_setQuery, Request.values_setQuery, hhash,
    htoken _ (Fields.values_erase_self _ tokenName)]
  simp only [Request.values_setQuery, Request.values_removeQuery]
  split_ifs <;> rfl

/-- Each parameter is set after whatever values it had are gone, so it has one value. Only the token may be
missing, and it is there exactly if it is sent. -/
theorem finish_parameters (hpresigned : config.presigned = true)
    (h : attempt.finish config hash = .ok finished) :
    Parameters config attempt.credentials finished.request.queries := by
  obtain ⟨list, hvalues⟩ := finish_values hpresigned h
  refine ⟨fun name hname hother => ?_, hvalues tokenName⟩
  rw [hvalues]
  simp only [signatureQueries, List.mem_cons, List.not_mem_nil, or_false] at hname
  rcases hname with rfl | rfl | rfl | rfl | rfl | rfl | rfl
  · exact ⟨_, rfl⟩
  · exact ⟨_, rfl⟩
  · exact ⟨_, rfl⟩
  · exact ⟨_, rfl⟩
  · exact absurd rfl hother
  · exact ⟨_, rfl⟩
  · exact ⟨_, rfl⟩

end Attempt

/-- The same of a signed request: encoding the body does not touch the query. -/
theorem sign_parameters [ByteSource σ] {credentials : Credentials} {signed : SignedRequest σ}
    (hpresigned : config.presigned = true)
    (h : sign clock config (.credentials credentials) request shared = (.ok signed, after)) :
    Parameters config credentials signed.request.queries := by
  obtain ⟨attempt, hash, hashed, finished, hprepared, -, hfinish, hsigned⟩ := sign_ok h
  have hparameters := Attempt.finish_parameters hpresigned hfinish
  have hcredentials : credentials = attempt.credentials :=
    Identity.credentials.inj hprepared.identity_eq
  rw [hcredentials]
  split at hsigned
  · obtain ⟨rfl, -⟩ := Prod.mk.inj hsigned
    exact hparameters
  · obtain ⟨rfl, -⟩ := Prod.mk.inj hsigned
    exact hparameters

/-! ## Signing -/

/-- A signed request is the one that it was made from, but for fields that signing owns. Names count as
headers compare them, and to agree without the own names is to have the same other ones too. -/
structure ChangesOwn (config : Config) (credentials : Credentials) (request signed : Request σ) :
    Prop where
  method : signed.method = request.method
  version : signed.version = request.version
  path : signed.path = request.path
  trailers : signed.trailers = request.trailers
  headers : signed.headers.without (ownHeaders config.presigned signed.body.payload?.isSome)
    = request.headers.without (ownHeaders config.presigned signed.body.payload?.isSome)
  dated : config.presigned = false → signed.queries = request.queries
  presigned : config.presigned = true →
    signed.queries.without signatureQueries = request.queries.without signatureQueries
      ∧ Parameters config credentials signed.queries
  body : signed.body = request.body ∨ signed.body.payload? = some request.body

/-- **Signing changes only what it owns.** Of a request whose body is not encoded yet, everything is kept
but the headers of a signature, those that announce an encoding if the body is encoded now, and the
parameters of a signature if it goes into the query, which then are there once each. -/
theorem sign_changes_own_fields [ByteSource σ] {credentials : Credentials} {signed : SignedRequest σ}
    (h : sign clock config (.credentials credentials) request shared = (.ok signed, after))
    (hfresh : request.body.payload? = none) :
    ChangesOwn config credentials request signed.request := by
  obtain ⟨finished, hedited, hsigned, hbody⟩ := sign_edited h hfresh
  have hheaders : signed.request.headers = finished.headers := by rw [hsigned]
  have hqueries : signed.request.queries = finished.queries := by rw [hsigned]
  -- Method, version, path and trailers, then headers, and the query in either mode.
  refine ⟨?_, ?_, ?_, ?_, ?_, fun hdated => ?_, fun hpresigned => ⟨?_, ?_⟩, hbody⟩
  · rw [hsigned]
    exact hedited.method
  · rw [hsigned]
    exact hedited.version
  · rw [hsigned]
    exact hedited.path
  · rw [hsigned]
    exact hedited.trailers
  · rw [hheaders]
    exact hedited.headers.without_eq
  · have hnone := hedited.queries.without_eq
    rw [hdated] at hnone
    rw [hqueries, ← Fields.without_nil finished.queries, ← Fields.without_nil request.queries]
    exact hnone
  · have hothers := hedited.queries.without_eq
    rw [hpresigned] at hothers
    rw [hqueries]
    exact hothers
  · exact sign_parameters hpresigned h

/-- A request that was presigned before, with other headers and queries of its own. -/
def lentRequest : Request MemorySource where
  path := ascii "/bucket/key"
  queries := Fields.ofList .bytewise
    [(ascii "X-Amz-Signature", ascii "stale"), (ascii "versionId", ascii "2"),
      (ascii "X-Amz-Date", ascii "stale"), (ascii "X-Amz-Date", ascii "older"),
      (ascii "x-amz-date", ascii "kept"), (ascii "X-Amz-Security-Token", ascii "stale")]
  headers := Fields.ofList .caseInsensitive
    [(ascii "x-amz-security-token", ascii "kept"), (ascii "Host", ascii "example.com"),
      (ascii "AUTHORIZATION", ascii "stale"), (ascii "X-Amz-Date", ascii "kept")]

/-- The signature goes into the query, the hash of the payload into a header. -/
def lendingConfig : Config where
  region := ascii "us-east-1"
  service := ascii "s3"
  presigned := true
  expiresAfter := some 3600
  hashHeader := true

/-- The stale parameters are replaced, and the one with the same name in lower case is kept. -/
theorem sign_changes_own_fields_of_stale_parameters :
    lentRequest.body.payload? = none
      ∧ ∃ signed after, sign ⟨⟨0⟩, none⟩ lendingConfig (.credentials tokenCredentials) lentRequest {}
          = (.ok signed, after)
        ∧ ChangesOwn lendingConfig tokenCredentials lentRequest signed.request := by
  have hok : (sign ⟨⟨0⟩, none⟩ lendingConfig (.credentials tokenCredentials) lentRequest {}).1.isOk
      = true := by decide +kernel
  obtain ⟨signed, after, hsign⟩ := exists_signed_of_isOk hok
  exact ⟨rfl, signed, after, hsign, sign_changes_own_fields hsign rfl⟩

end Signer

end SigV4
