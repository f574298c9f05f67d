import SigV4.Proofs.CanonicalForm
import SigV4.Proofs.Edits
import SigV4.Signer

/-!
# What signing goes through

A request that was signed went through `prepare`, `hashPayload` and `finish`, and each of them
returned. `Signer.sign_ok` takes a signing apart into these steps and `Signer.prepare_ok` says what
was checked before them. Each step edits fields of known names and nothing else of the request
(`Signer.addChunkHeaders_edited`, `Signer.unwrapBody_headers`, `Signer.Attempt.finish_edited`).
-/

namespace SigV4

/-! ## What edits of a request leave alone

Each edit sees one of the two collections, and the other one is the same by definition. -/

namespace Request

variable {σ : Type} (request : Request σ) (name value : Bytes)

@[simp] theorem removeHeader_headers :
    (request.removeHeader name).headers = request.headers.erase name := rfl

@[simp] theorem setQuery_queries :
    (request.setQuery name value).queries = request.queries.set name value := rfl

@[simp] theorem removeQuery_queries :
    (request.removeQuery name).queries = request.queries.erase name := rfl

end Request

/-- A configuration that is valid has chunks of some size. The size is checked after the region and the
service, so these have to be passed first. -/
theorem Config.chunkSize_ne_zero {config : Config} (h : config.validate = .ok ()) :
    config.chunkSize ≠ 0 := by
  intro hsize
  unfold validate at h
  by_cases hregion : config.region.isEmpty
  · rw [if_pos hregion] at h
    exact absurd h Outcome.throw_ne_ok
  · rw [if_neg hregion] at h
    by_cases hservice : config.service.isEmpty
    · rw [if_pos hservice] at h
      exact absurd h Outcome.throw_ne_ok
    · rw [if_neg hservice] at h
      dsimp only at h
      rw [if_pos hsize] at h
      split at h
      · exact absurd h Outcome.throw_ne_ok
      · exact absurd h Outcome.throw_ne_ok

namespace Signer

variable {σ : Type} {clock : Clock} {config : Config} {identity : Identity}
  {request announced : Request σ} {shared shared' : Shared} {attempt : Attempt σ}

/-! ## Announcing chunks

Announcing edits headers of the encoding, and taking the announcement back edits the same ones. -/

/-- The headers that announce an aws-chunked body apart from its coding. -/
def lengthHeaders : List Bytes := [contentLength, transferEncoding, decodedLength, trailerNames]

/-- The headers that go with an aws-chunked body. -/
def chunkHeaders : List Bytes := contentEncoding :: contentHash :: lengthHeaders

/-- The others are among those that go with an encoded body. -/
theorem lengthHeaders_subset : lengthHeaders ⊆ chunkHeaders :=
  List.subset_cons_of_subset _ (List.subset_cons_self _ _)

/-- The coding is put in front of a coding that is there, unless it is in front already. -/
theorem addCoding_edited (request : Request σ) :
    Request.Edited chunkHeaders [] request (addCoding request) := by
  have hset (value : Bytes) :
      Request.Edited chunkHeaders [] request (request.setHeader contentEncoding value) :=
    (Request.Edited.refl _ _ request).setHeader (by decide) value
  unfold addCoding
  split
  · exact hset _
  · exact hset _
  · split
    · exact .refl _ _ request
    · exact hset _

/-- Of the two headers that tell a length one is set and the other removed. -/
theorem addLength_edited {signed : Bool} {chunkSize : UInt64}
    (h : addLength request signed chunkSize = .ok announced) :
    Request.Edited lengthHeaders [] request announced := by
  have hrefl := Request.Edited.refl lengthHeaders [] request
  unfold addLength at h
  split at h
  · obtain ⟨encoded, -, hannounced⟩ := Outcome.bind_eq_ok.mp h
    rw [← Outcome.pure_eq_ok.mp hannounced]
    exact (hrefl.removeHeader (by decide)).setHeader (by decide) _
  · rw [← Outcome.pure_eq_ok.mp h]
    exact (hrefl.removeHeader (by decide)).setHeader (by decide) _

/-- The length of the payload is told if it is known. -/
theorem addDecodedLength_edited (request : Request σ) :
    Request.Edited [decodedLength] [] request (addDecodedLength request) := by
  unfold addDecodedLength
  split
  · exact (Request.Edited.refl _ _ request).setHeader (by decide) _
  · exact .refl _ _ request

/-- Trailers are announced if there are any. -/
theorem addTrailerNames_edited (request : Request σ) :
    Request.Edited [trailerNames] [] request (addTrailerNames request) := by
  unfold addTrailerNames
  split
  · exact .refl _ _ request
  · exact (Request.Edited.refl _ _ request).setHeader (by decide) _

/-- The coding is put in front, and then the lengths and the trailers are announced. -/
theorem addChunkHeaders_ok {signed : Bool} {chunkSize : UInt64}
    (h : addChunkHeaders request signed chunkSize = .ok announced) :
    Request.Edited lengthHeaders [] (addCoding request) announced := by
  obtain ⟨measured, hmeasured, hannounced⟩ := Outcome.bind_eq_ok.mp h
  rw [← Outcome.pure_eq_ok.mp hannounced]
  have hdecoded : Request.Edited lengthHeaders [] measured (addDecodedLength measured) :=
    (addDecodedLength_edited measured).mono (by decide)
  have hnames : Request.Edited lengthHeaders [] (addDecodedLength measured)
      (addTrailerNames (addDecodedLength measured)) :=
    (addTrailerNames_edited _).mono (by decide)
  exact (addLength_edited hmeasured).trans (hdecoded.trans hnames)

/-- All headers that announce chunks are among `chunkHeaders`. -/
theorem addChunkHeaders_edited {signed : Bool} {chunkSize : UInt64}
    (h : addChunkHeaders request signed chunkSize = .ok announced) :
    Request.Edited chunkHeaders [] request announced :=
  (addCoding_edited request).trans ((addChunkHeaders_ok h).mono lengthHeaders_subset)

/-- Announcing chunks edits headers and nothing else, and it takes a signature in a header. -/
theorem announceChunks_ok {hash : PayloadHash}
    (h : announceChunks request hash config = .ok announced) :
    config.presigned = false
      ∧ addChunkHeaders request hash.signsChunks config.chunkSize = .ok announced := by
  simp only [announceChunks] at h
  split at h
  · exact absurd h Outcome.throw_ne_ok
  next hpresigned =>
    split at h
    · exact absurd h Outcome.throw_ne_ok
    · exact ⟨by simpa using hpresigned, h⟩

/-- The coding is taken off where it stands in front, and the header with it where nothing else is left. -/
theorem removeCoding_edited (request : Request σ) :
    Request.Edited chunkHeaders [] request (removeCoding request) := by
  have hrefl := Request.Edited.refl chunkHeaders [] request
  unfold removeCoding
  split
  · exact hrefl
  · split
    · exact hrefl.removeHeader (by decide)
    · split
      · exact hrefl.setHeader (by decide) _
      · exact hrefl

/-- The coding is taken off, and then lengths, trailers and hash are removed. -/
theorem removeChunkHeaders_ok (request : Request σ) :
    Request.Edited (contentHash :: lengthHeaders) [] (removeCoding request)
      (removeChunkHeaders request) := by
  have hrefl := Request.Edited.refl (contentHash :: lengthHeaders) [] (removeCoding request)
  have hothers : Request.Edited (contentHash :: lengthHeaders) [] (removeCoding request)
      ((removeCoding request).removeHeader transferEncoding |>.removeHeader decodedLength
        |>.removeHeader trailerNames |>.removeHeader contentHash) :=
    (((hrefl.removeHeader (by decide)).removeHeader (by decide)).removeHeader
      (by decide)).removeHeader (by decide)
  unfold removeChunkHeaders
  dsimp only
  split
  · exact hothers.setHeader (by decide) _
  · exact hothers.removeHeader (by decide)

/-- All headers that are taken back are among `chunkHeaders` as well. -/
theorem removeChunkHeaders_edited (request : Request σ) :
    Request.Edited chunkHeaders [] request (removeChunkHeaders request) :=
  (removeCoding_edited request).trans
    ((removeChunkHeaders_ok request).mono (List.subset_cons_self _ _))

/-- Where an earlier attempt encoded the body, its headers are taken back. -/
theorem unwrapBody_headers (request : Request σ) :
    request.headers.EditedAt chunkHeaders (unwrapBody request).headers := by
  unfold unwrapBody
  split
  next payload _ => exact (removeChunkHeaders_edited { request with body := payload }).headers
  next => exact .refl

/-- Taking off an encoding leaves its payload; other bodies stay as they are. -/
theorem unwrapBody_body (request : Request σ) :
    (unwrapBody request).body = request.body.payload?.getD request.body := by
  unfold unwrapBody
  split
  next payload hpayload =>
    rw [hpayload]
    exact (removeChunkHeaders_edited { request with body := payload }).body
  next hpayload =>
    rw [hpayload]
    rfl

/-- The trailers stay, as they belong to the payload. -/
theorem unwrapBody_trailers (request : Request σ) :
    (unwrapBody request).trailers = request.trailers := by
  unfold unwrapBody
  split
  next payload _ => exact (removeChunkHeaders_edited { request with body := payload }).trailers
  next => rfl

/-- An earlier attempt's encoding is taken off, and no other layer. -/
theorem unwrapBody_body_eq_or (request : Request σ) :
    (unwrapBody request).body = request.body
      ∨ request.body.payload? = some (unwrapBody request).body := by
  rw [unwrapBody_body]
  cases request.body.payload? with
  | none => exact .inl rfl
  | some payload => exact .inr rfl

/-! ## The steps of signing

These lemmas take a signing apart once, so that no later proof has to unfold it. -/

/-- What is known of an attempt that was prepared. -/
structure Prepared (clock : Clock) (config : Config) (identity : Identity) (request : Request σ)
    (shared : Shared) (attempt : Attempt σ) : Prop where
  valid : config.validate = .ok ()
  credentials : identityCredentials identity = .ok attempt.credentials
  unread : (unwrapBody request).body.consumed shared = false
  unexpired : checkExpiration attempt.credentials (config.signingDate.getD clock.now) = .ok ()
  hash : resolveHash (unwrapBody request) config = .ok attempt.hash
  request : (if attempt.hash.streaming then announceChunks (unwrapBody request) attempt.hash config
    else pure (unwrapBody request)) = .ok attempt.request
  amzDate : attempt.amzDate = Timestamp.amzDate (config.signingDate.getD clock.now)

/-- Preparing an attempt returned only after all of its checks. The fields of `Prepared` are in the order of
the checks, and later results use them by name. -/
theorem prepare_ok (h : prepare clock config identity request shared = .ok attempt) :
    Prepared clock config identity request shared attempt := by
  simp only [prepare] at h
  obtain ⟨_, hvalid, h⟩ := Outcome.bind_eq_ok.mp h
  obtain ⟨credentials, hcredentials, h⟩ := Outcome.bind_eq_ok.mp h
  split at h
  · exact absurd h Outcome.throw_ne_ok
  next hunread =>
    obtain ⟨_, hunexpired, h⟩ := Outcome.bind_eq_ok.mp h
    obtain ⟨hash, hhash, h⟩ := Outcome.bind_eq_ok.mp h
    -- Announcing chunks is the last step, and there is no such step for other bodies.
    have hunread' : (unwrapBody request).body.consumed shared = false := by simpa using hunread
    split at h
    next hstreaming =>
      obtain ⟨announced, hannounced, h⟩ := Outcome.bind_eq_ok.mp h
      obtain rfl := Outcome.pure_eq_ok.mp h
      exact ⟨hvalid, hcredentials, hunread', hunexpired, hhash, by rwa [if_pos hstreaming], rfl⟩
    next hstreaming =>
      obtain rfl := Outcome.pure_eq_ok.mp h
      exact ⟨hvalid, hcredentials, hunread', hunexpired, hhash, by rw [if_neg hstreaming]; rfl, rfl⟩

/-- An attempt is made for credentials and for no other identity. -/
theorem Prepared.identity_eq (h : Prepared clock config identity request shared attempt) :
    identity = .credentials attempt.credentials := by
  have hcredentials := h.credentials
  cases identity with
  | other => exact absurd hcredentials (by simp [identityCredentials])
  | credentials credentials =>
    simp only [identityCredentials] at hcredentials
    split at hcredentials
    · exact absurd hcredentials (by simp)
    · rw [Except.ok.inj hcredentials]

/-- The body to hash is that of the request before chunks are announced. -/
theorem Prepared.body_eq (h : Prepared clock config identity request shared attempt) :
    attempt.request.body = (unwrapBody request).body := by
  have hrequest := h.request
  split at hrequest
  · exact (addChunkHeaders_edited (announceChunks_ok hrequest).2).body
  · rw [← Outcome.pure_eq_ok.mp hrequest]

/-- Announcing chunks leaves the trailers alone. -/
theorem Prepared.trailers_eq (h : Prepared clock config identity request shared attempt) :
    attempt.request.trailers = request.trailers := by
  rw [← unwrapBody_trailers request]
  have hrequest := h.request
  split at hrequest
  · exact (addChunkHeaders_edited (announceChunks_ok hrequest).2).trailers
  · rw [← Outcome.pure_eq_ok.mp hrequest]

/-! ## What finishing edits

The edits are listed for each mode, so that a header that is in no list is the one that was handed
in. -/

/-- The headers that a signature sets or removes; a body that is sent aws-chunked has its hash in a
header always. -/
def editedHeaders (config : Config) (streaming : Bool) : List Bytes :=
  if config.presigned then
    authorization :: if config.hashHeader then [contentHash] else []
  else
    authorization :: dateName :: tokenName ::
      if config.hashHeader || streaming then [contentHash] else []

/-- Whatever the mode, no other than these four are edited. -/
theorem editedHeaders_subset (config : Config) (streaming : Bool) :
    editedHeaders config streaming ⊆ [authorization, dateName, tokenName, contentHash] := by
  unfold editedHeaders
  split
  · split
    · simp
    · simp
  · split
    · simp
    · simp

/-- The queries that it sets or removes. -/
def editedQueries (config : Config) : List Bytes :=
  if config.presigned then
    [Canonical.signatureParameter, queryAlgorithm, queryCredential, dateName, queryExpires, tokenName,
      querySignedHeaders]
  else
    []

/-- Presigning touches neither date nor token in the headers. -/
theorem editedHeaders_of_presigned (hpresigned : config.presigned = true) (streaming : Bool) :
    editedHeaders config streaming
      = authorization :: if config.hashHeader then [contentHash] else [] :=
  if_pos hpresigned

/-- Signing in a header edits date and token there. -/
theorem editedHeaders_of_dated (hpresigned : config.presigned = false) (streaming : Bool) :
    editedHeaders config streaming
      = authorization :: dateName :: tokenName ::
        if config.hashHeader || streaming then [contentHash] else [] :=
  if_neg (Bool.eq_false_iff.mp hpresigned)

/-- A presigned request carries all of its signature in the query. -/
theorem editedQueries_of_presigned (hpresigned : config.presigned = true) :
    editedQueries config
      = [Canonical.signatureParameter, queryAlgorithm, queryCredential, dateName, queryExpires,
        tokenName, querySignedHeaders] :=
  if_pos hpresigned

/-- A request that is not presigned keeps its query. -/
theorem editedQueries_of_dated (hpresigned : config.presigned = false) : editedQueries config = [] :=
  if_neg (Bool.eq_false_iff.mp hpresigned)

namespace Attempt

variable {hash : Bytes} {listed : Request σ} {finished : SignedRequest σ}

/-- What is listed for a presigned request, before its signature is added. -/
theorem presignedRequest_edited (hpresigned : config.presigned = true)
    (h : attempt.presignedRequest config hash = .ok listed) (streaming : Bool) :
    Request.Edited (editedHeaders config streaming) (editedQueries config) attempt.request listed := by
  obtain ⟨canonical, -, h⟩ := Outcome.bind_eq_ok.mp h
  obtain rfl := Outcome.pure_eq_ok.mp h
  rw [editedHeaders_of_presigned hpresigned, editedQueries_of_presigned hpresigned]
  -- The edits are undone from the last to the first; each is of a name in the list.
  refine .setQuery (.iteSetHeader (.elimSetQuery ?_ (by decide) _) ?_ hash) (by decide) _
  · exact .removeQuery (.setQuery (.setQuery (.setQuery (.setQuery (.removeQuery (.removeHeader
      (.refl _ _ _) List.mem_cons_self) (by decide)) (by decide) _) (by decide) _) (by decide) _)
      (by decide) _) (by decide)
  · intro hheader
    rw [if_pos hheader]
    decide

/-- What is set for a request that is not presigned, before its signature is added. -/
theorem datedRequest_edited (hpresigned : config.presigned = false) (hash : Bytes) :
    Request.Edited (editedHeaders config attempt.hash.streaming) (editedQueries config)
      attempt.request (attempt.datedRequest config hash) := by
  rw [editedHeaders_of_dated hpresigned, editedQueries_of_dated hpresigned]
  refine .iteSetHeader (.elimSetHeader ?_ (by simp) _) ?_ hash
  · exact .removeHeader (.setHeader (.removeHeader (.refl _ _ _) (by simp)) (by simp) _) (by simp)
  · intro hheader
    rw [if_pos hheader]
    decide

/-- **Finishing edits these headers and parameters and nothing else.** Presigning goes by two canonical
forms and the other mode by one, but a canonical form is only computed from the request, so the edits are
those that are written out. -/
theorem finish_edited (h : attempt.finish config hash = .ok finished) :
    Request.Edited (editedHeaders config attempt.hash.streaming) (editedQueries config)
      attempt.request finished.request := by
  simp only [finish] at h
  split at h
  next hpresigned =>
    obtain ⟨listed, hlisted, h⟩ := Outcome.bind_eq_ok.mp h
    obtain ⟨canonical, -, h⟩ := Outcome.bind_eq_ok.mp h
    obtain rfl := Outcome.pure_eq_ok.mp h
    have hedited := presignedRequest_edited hpresigned hlisted attempt.hash.streaming
    -- The signature itself is the last edit.
    exact hedited.setQuery (by rw [editedQueries_of_presigned hpresigned]; decide) _
  next hpresigned =>
    obtain ⟨canonical, -, h⟩ := Outcome.bind_eq_ok.mp h
    obtain rfl := Outcome.pure_eq_ok.mp h
    have hdated : config.presigned = false := Bool.eq_false_iff.mpr hpresigned
    have hedited : Request.Edited (editedHeaders config attempt.hash.streaming)
        (editedQueries config) attempt.request (attempt.datedRequest config hash) :=
      datedRequest_edited hdated hash
    exact hedited.setHeader (by rw [editedHeaders_of_dated hdated]; exact List.mem_cons_self) _

end Attempt

/-- A signing that returned went through all of its steps. Each of them returned something, from which the
next one went on, and a body was encoded only behind all the others. -/
theorem sign_steps [ByteSource σ] {signed : SignedRequest σ}
    (h : sign clock config identity request shared = (.ok signed, shared')) :
    ∃ attempt hash hashed finished, prepare clock config identity request shared = .ok attempt
      ∧ hashPayload attempt.request.body attempt.hash shared = (.ok hash, hashed)
      ∧ attempt.finish config hash = .ok finished
      ∧ (signed, shared') = if attempt.hash.streaming then
          encodeBody finished (attempt.chunkContext config finished) hashed
        else (finished, hashed) := by
  simp only [sign] at h
  split at h
  · simp at h
  next attempt hprepare =>
    split at h
    · simp at h
    next hash hashed hhash =>
      split at h
      · simp at h
      next finished hfinish =>
        refine ⟨attempt, hash, hashed, finished, hprepare, hhash, hfinish, ?_⟩
        split at h
        next hstreaming =>
          rw [if_pos hstreaming]
          simpa [eq_comm, Prod.ext_iff] using h
        next hstreaming =>
          rw [if_neg hstreaming]
          simpa [eq_comm, Prod.ext_iff] using h

/-- **The steps of a signing that returned**, with what is known of the attempt that was prepared. Results
about signed requests start by taking the signing apart with this lemma, and none of them unfolds `sign`. -/
theorem sign_ok [ByteSource σ] {signed : SignedRequest σ}
    (h : sign clock config identity request shared = (.ok signed, shared')) :
    ∃ attempt hash hashed finished, Prepared clock config identity request shared attempt
      ∧ hashPayload attempt.request.body attempt.hash shared = (.ok hash, hashed)
      ∧ attempt.finish config hash = .ok finished
      ∧ (signed, shared') = if attempt.hash.streaming then
          encodeBody finished (attempt.chunkContext config finished) hashed
        else (finished, hashed) := by
  obtain ⟨attempt, hash, hashed, finished, hprepare, hsteps⟩ := sign_steps h
  exact ⟨attempt, hash, hashed, finished, prepare_ok hprepare, hsteps⟩

/-- **What signing makes of the body**: the payload is sent as it is, or encoded in a stream that was
not there before. -/
theorem sign_body [ByteSource σ] {signed : SignedRequest σ}
    (h : sign clock config identity request shared = (.ok signed, shared')) :
    ∃ hash text hashed, resolveHash (unwrapBody request) config = .ok hash
      ∧ hashPayload (unwrapBody request).body hash shared = (.ok text, hashed)
      ∧ (hash.streaming = false ∧ signed.request.body = (unwrapBody request).body ∧ shared' = hashed
        ∨ ∃ context, hash.streaming = true ∧ context.chunkSize ≠ 0
          ∧ context.trailers = (unwrapBody request).trailers
          ∧ signed.request.body = .chunked hashed.newStream.1 (unwrapBody request).body context
          ∧ shared' = hashed.newStream.2) := by
  obtain ⟨attempt, text, hashed, finished, hprepared, hhash, hfinish, hsigned⟩ := sign_ok h
  have hfinished := Attempt.finish_edited hfinish
  have hbody : finished.request.body = (unwrapBody request).body :=
    hfinished.body.trans hprepared.body_eq
  rw [hprepared.body_eq] at hhash
  refine ⟨attempt.hash, text, hashed, hprepared.hash, hhash, ?_⟩
  have hrequest := hprepared.request
  split at hsigned
  next hstreaming =>
    obtain ⟨rfl, rfl⟩ := Prod.mk.inj hsigned
    rw [if_pos hstreaming] at hrequest
    have hannounced := addChunkHeaders_edited (announceChunks_ok hrequest).2
    refine .inr ⟨attempt.chunkContext config finished, hstreaming,
      Config.chunkSize_ne_zero hprepared.valid, hfinished.trailers.trans hannounced.trailers, ?_, rfl⟩
    rw [← hbody]
    rfl
  next hplain =>
    obtain ⟨rfl, rfl⟩ := Prod.mk.inj hsigned
    exact .inl ⟨Bool.eq_false_iff.mpr hplain, hbody, rfl⟩

theorem sign_trailers [ByteSource σ] {signed : SignedRequest σ}
    (h : sign clock config identity request shared = (.ok signed, shared')) :
    signed.request.trailers = request.trailers := by
  obtain ⟨attempt, hash, hashed, finished, hprepared, -, hfinish, hsigned⟩ := sign_ok h
  have hfinished := (Attempt.finish_edited hfinish).trailers.trans hprepared.trailers_eq
  split at hsigned
  · obtain ⟨rfl, -⟩ := Prod.mk.inj hsigned
    exact hfinished
  · obtain ⟨rfl, -⟩ := Prod.mk.inj hsigned
    exact hfinished

/-- Whether a signing returns can be evaluated, what it returns need not be. -/
theorem exists_signed_of_isOk [ByteSource σ]
    (h : (sign clock config identity request shared).1.isOk = true) :
    ∃ signed shared', sign clock config identity request shared = (.ok signed, shared') := by
  generalize sign clock config identity request shared = result at h ⊢
  obtain ⟨outcome, shared'⟩ := result
  cases outcome with
  | error failure => exact absurd h Bool.false_ne_true
  | ok signed => exact ⟨signed, shared', rfl⟩

/-- What is to be known of the result can be evaluated as well. -/
theorem exists_signed_of_any [ByteSource σ] {p : SignedRequest σ → Bool}
    (h : (sign clock config identity request shared).1.toOption.any p = true) :
    ∃ signed shared', sign clock config identity request shared = (.ok signed, shared')
      ∧ p signed = true := by
  have hok : (sign clock config identity request shared).1.isOk = true := by
    revert h
    cases (sign clock config identity request shared).1 with
    | error failure => exact fun h => absurd h Bool.false_ne_true
    | ok signed => exact fun _ => rfl
  obtain ⟨signed, shared', hsign⟩ := exists_signed_of_isOk hok
  rw [hsign] at h
  exact ⟨signed, shared', hsign, h⟩

/-- The body of an encoded request is another one, and nothing else of it is. -/
theorem encodeBody_fst (signed : SignedRequest σ) (context : ChunkContext) (shared : Shared) :
    ∃ body, (encodeBody signed context shared).1
      = { signed with request := { signed.request with body } } := ⟨_, rfl⟩

end Signer

end SigV4
