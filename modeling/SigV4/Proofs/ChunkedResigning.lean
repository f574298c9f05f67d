import SigV4.Proofs.Resigning

/-!
# Signing an encoded request again

A body that is sent aws-chunked is announced in headers. The next attempt takes them back before it
announces the body anew:

* **`removeCoding_values`**: the content coding that was put in front is taken off, whatever other
  codings the request has.
* **`addChunkHeaders_alike`**: so the same headers are announced as for the request that was there
  first, or the announcement fails for the same reason (`Outcome.Alike`).
* **`sign_chunked_again`**: signing again is signing the first request, and the body that is made for
  it reads the same.
-/

namespace SigV4

/-! ## Outcomes that are alike -/

namespace Outcome

variable {α β γ δ : Type}

/-- Both failed for the same reason, or both returned and the results are related. -/
inductive Alike (R : α → β → Prop) : Outcome α → Outcome β → Prop where
  | error (failure : Failure) : Alike R (.error failure) (.error failure)
  | ok {a : α} {b : β} (h : R a b) : Alike R (.ok a) (.ok b)

/-- Steps that are alike, one after the other: a failure of the first is the failure of both, and otherwise
the second goes on from results that are related. -/
theorem Alike.bind {R : α → β → Prop} {S : γ → δ → Prop} {x : Outcome α} {y : Outcome β}
    {f : α → Outcome γ} {g : β → Outcome δ} (hxy : Alike R x y)
    (hfg : ∀ a b, R a b → Alike S (f a) (g b)) : Alike S (x >>= f) (y >>= g) := by
  cases hxy with
  | error failure => exact .error failure
  | ok h => exact hfg _ _ h

end Outcome

namespace Signer

variable {σ : Type} {clock clock' : Clock} {config config' : Config} {identity identity' : Identity}
  {request other : Request σ} {shared after : Shared} {names : List Bytes}

/-! ## Taking the coding off

A retry finds the header that the first attempt wrote. Taking the coding off restores the value that
there was before. -/

/-- The value with which a body is announced, given the first of the codings that it has. -/
def announcedCoding : Option Bytes → Bytes
  | none | some [] => codingName
  | some codings => codingName ++ ascii "," ++ codings

/-- The request does not announce an aws-chunked body. -/
structure NotEncoded (request : Request σ) : Prop where
  payload : request.body.payload? = none
  coding : ∀ value ∈ request.headers.values contentEncoding, Bytes.cut? codingName value = none
  lengthAbsent : request.headers.values decodedLength = []
  trailersAbsent : request.headers.values trailerNames = []

/-- Only the first value is asked whether it mentions the coding. If it does not, the coding is put in front
of it. -/
theorem addCoding_of_head
    (h : ∀ value ∈ request.headers.get? contentEncoding, Bytes.cut? codingName value = none) :
    addCoding request = request.setHeader contentEncoding
      (announcedCoding (request.headers.get? contentEncoding)) := by
  unfold addCoding
  cases hcodings : request.headers.get? contentEncoding with
  | none => rfl
  | some codings =>
    cases codings with
    | nil => rfl
    | cons b codings =>
      simp only [h _ hcodings]
      rfl

/-- A request that does not announce an encoding has the coding put in front of its first value. -/
theorem addCoding_eq
    (h : ∀ value ∈ request.headers.values contentEncoding, Bytes.cut? codingName value = none) :
    addCoding request = request.setHeader contentEncoding
      (announcedCoding (request.headers.get? contentEncoding)) := by
  refine addCoding_of_head fun value hvalue => h value ?_
  rw [Fields.get?_eq_head?] at hvalue
  exact List.mem_of_mem_head? hvalue

/-- Of the codings that were announced those are left that were there before. An empty value counts as none.
-/
theorem removeCoding_values {codings : Option Bytes}
    (h : request.headers.values contentEncoding = [announcedCoding codings]) :
    (removeCoding request).headers.values contentEncoding
      = (codings.filter (!·.isEmpty)).toList := by
  have hget : request.headers.get? contentEncoding = some (announcedCoding codings) := by
    rw [Fields.get?_eq_head?, h]
    rfl
  -- With no codings before, what was announced is the name alone, and all is removed.
  have hremoved (hcoding : announcedCoding codings = codingName) :
      (removeCoding request).headers.values contentEncoding = [] := by
    rw [removeCoding, hget]
    dsimp only
    rw [if_pos hcoding]
    exact Fields.values_erase_self _ _
  cases codings with
  | none => exact hremoved rfl
  | some codings =>
    cases codings with
    | nil => exact hremoved rfl
    | cons b codings =>
      -- The coding stands in front of others, which are what is left behind the comma.
      have hcoding : announcedCoding (some (b :: codings)) = (codingName ++ ascii ",") ++ b :: codings := rfl
      have hne : announcedCoding (some (b :: codings)) ≠ codingName := by
        intro heq
        have hlength := congrArg List.length heq
        rw [hcoding, List.length_append, List.length_append, List.length_cons] at hlength
        omega
      have hprefix : (codingName ++ ascii ",").isPrefixOf (announcedCoding (some (b :: codings))) = true :=
        List.isPrefixOf_iff_prefix.mpr (List.prefix_append _ _)
      have hdrop : (announcedCoding (some (b :: codings))).drop (codingName.length + 1) = b :: codings := by
        rw [hcoding]
        exact @List.drop_left _ (codingName ++ ascii ",") (b :: codings)
      rw [removeCoding, hget]
      dsimp only
      rw [if_neg hne, if_pos hprefix, hdrop]
      exact Fields.values_set_self _ _ _

/-- The codings that are left are announced as they were before, also where an empty value was dropped. -/
theorem announcedCoding_filter (codings : Option Bytes) :
    announcedCoding (codings.filter (!·.isEmpty)).toList.head? = announcedCoding codings := by
  cases codings with
  | none => rfl
  | some codings =>
    cases codings with
    | nil => rfl
    | cons b codings => rfl

/-! ## Taking the announcement back

The headers of an encoding are removed or replaced, so after that the request differs from the first
one in these headers only. -/

/-- The second request is the first one as an attempt left it, with the announcement taken back. -/
structure Restored (request restored : Request σ) : Prop where
  agrees : Request.AgreesOff (contentEncoding :: contentLength :: transferEncoding
    :: [authorization, dateName, tokenName, contentHash]) [] restored request
  coding : addCoding restored = restored.setHeader contentEncoding
    (announcedCoding (request.headers.get? contentEncoding))

/-- Lengths and trailers are not announced any more, whatever else is done to the headers behind their
removal. -/
theorem removeChunkHeaders_values (request : Request σ) :
    (removeChunkHeaders request).headers.values decodedLength = []
      ∧ (removeChunkHeaders request).headers.values trailerNames = [] := by
  have hrefl := Request.Edited.refl [contentHash, contentLength] []
    (((removeCoding request).removeHeader transferEncoding).removeHeader decodedLength
      |>.removeHeader trailerNames)
  -- Behind the removal of both, only the hash and the length of the payload are edited.
  have hlast : Request.Edited [contentHash, contentLength] []
      (((removeCoding request).removeHeader transferEncoding).removeHeader decodedLength
        |>.removeHeader trailerNames) (removeChunkHeaders request) := by
    unfold removeChunkHeaders
    dsimp only
    split
    · exact (hrefl.removeHeader (by decide)).setHeader (by decide) _
    · exact (hrefl.removeHeader (by decide)).removeHeader (by decide)
  have hne : toLower trailerNames ≠ toLower decodedLength := by decide
  constructor
  · rw [hlast.headers.values_eq (by decide)]
    exact (Fields.values_erase_of_ne hne _).trans (Fields.values_erase_self _ _)
  · rw [hlast.headers.values_eq (by decide)]
    exact Fields.values_erase_self _ _

/-- What an attempt leaves of a request that does not announce an encoding, once its own announcement is
taken back: the request again, but for the headers that every attempt sets anew. -/
theorem restored_of_finish (h : NotEncoded request) {hash : PayloadHash} {announced : Request σ}
    (hannounced : announceChunks request hash config = .ok announced) {attempt : Attempt σ}
    (hattempt : attempt.request = announced) (hstreaming : attempt.hash.streaming = true) {text : Bytes}
    {finished : SignedRequest σ} (hfinish : attempt.finish config text = .ok finished) :
    Restored request (removeChunkHeaders finished.request) := by
  obtain ⟨hpresigned, hheaders⟩ := announceChunks_ok hannounced
  have hfinished := Attempt.finish_edited hfinish
  rw [hattempt, hstreaming, editedHeaders_of_dated hpresigned, editedQueries_of_dated hpresigned,
    Bool.or_true, if_pos rfl] at hfinished
  have hvalues := removeChunkHeaders_values finished.request
  -- The attempt announced its coding in one value, and finishing left it alone.
  have hcoding : finished.request.headers.values contentEncoding
      = [announcedCoding (request.headers.get? contentEncoding)] := by
    rw [hfinished.headers.values_eq (by decide), (addChunkHeaders_ok hheaders).headers.values_eq (by decide),
      addCoding_eq h.coding]
    exact Fields.values_set_self _ _ _
  -- So taking the coding off restores the value that there was, if it was not empty.
  have hrestored : (removeChunkHeaders finished.request).headers.values contentEncoding
      = ((request.headers.get? contentEncoding).filter (!·.isEmpty)).toList := by
    rw [(removeChunkHeaders_ok _).headers.values_eq (by decide), removeCoding_values hcoding]
  constructor
  · -- Lengths and trailers are announced on neither side.
    have hremoved := (removeChunkHeaders_edited finished.request).agreesOff
    have hadded := (addChunkHeaders_edited hheaders).agreesOff
    have hall : Request.AgreesOff (decodedLength :: trailerNames :: contentEncoding :: contentLength
        :: transferEncoding :: [authorization, dateName, tokenName, contentHash]) []
        (removeChunkHeaders finished.request) request := by
      refine ((hremoved.mono ?_ ?_).trans (hfinished.agreesOff.mono ?_ ?_)).trans (hadded.mono ?_ ?_)
      · simp [chunkHeaders, lengthHeaders]
      · exact List.Subset.refl _
      · simp
      · exact List.Subset.refl _
      · simp [chunkHeaders, lengthHeaders]
      · exact List.Subset.refl _
    exact (hall.settle hvalues.1 h.lengthAbsent).settle hvalues.2 h.trailersAbsent
  · -- A value that is restored is one of the request, which has no encoding.
    have hplain : ∀ value ∈ (removeChunkHeaders finished.request).headers.values contentEncoding,
        Bytes.cut? codingName value = none := by
      intro value hvalue
      rw [hrestored, Option.mem_toList, Option.filter_eq_some_iff] at hvalue
      have hget := hvalue.1
      rw [Fields.get?_eq_head?] at hget
      exact h.coding value (List.mem_of_mem_head? hget)
    rw [addCoding_eq hplain, Fields.get?_eq_head?, hrestored, announcedCoding_filter]

/-! ## Announcing again

What is announced depends on body, trailers and configuration, and on none of the headers that
differ. -/

/-- Where the codings are announced alike, so is the rest, or the announcement fails on both sides. What the
two requests had in these headers before does not matter, as each is set or removed on both sides. -/
theorem addChunkHeaders_alike {a b : Request σ} {value : Bytes}
    (h : Request.AgreesOff (contentEncoding :: contentLength :: transferEncoding :: names) [] a b)
    (ha : addCoding a = a.setHeader contentEncoding value)
    (hb : addCoding b = b.setHeader contentEncoding value) (signed : Bool) (chunkSize : UInt64) :
    Outcome.Alike (Request.AgreesOff names []) (addChunkHeaders a signed chunkSize)
      (addChunkHeaders b signed chunkSize) := by
  have hcoded := h.setHeader value
  rw [← ha, ← hb] at hcoded
  have hlength : Outcome.Alike (Request.AgreesOff names []) (addLength (addCoding a) signed chunkSize)
      (addLength (addCoding b) signed chunkSize) := by
    have hswapped : Request.AgreesOff (transferEncoding :: contentLength :: names) [] (addCoding a)
        (addCoding b) :=
      hcoded.mono (List.Perm.swap transferEncoding contentLength names).subset (List.Subset.refl _)
    unfold addLength
    rw [hcoded.body, hcoded.trailers]
    -- A known length sets one of the two headers and removes the other, an unknown one conversely.
    split
    · cases Chunked.encodedLength? _ chunkSize signed with
      | error failure => exact .error failure
      | ok encoded => exact .ok (hswapped.removeHeader.setHeader _)
    · exact .ok (hcoded.removeHeader.setHeader _)
  unfold addChunkHeaders
  refine hlength.bind fun a b hab => .ok ?_
  -- What is set from here on is set on both sides, whether or not they agreed on it.
  have hset {a b : Request σ} (hab : Request.AgreesOff names [] a b) (name value : Bytes) :
      Request.AgreesOff names [] (a.setHeader name value) (b.setHeader name value) :=
    (hab.mono (List.subset_cons_self name names) (List.Subset.refl _)).setHeader value
  have hdecoded : Request.AgreesOff names [] (addDecodedLength a) (addDecodedLength b) := by
    unfold addDecodedLength
    rw [hab.body]
    split
    · exact hset hab _ _
    · exact hab
  unfold addTrailerNames
  rw [hdecoded.trailers]
  split
  · exact hdecoded
  · exact hset hdecoded _ _

/-- A body that cannot be announced is the same on both sides, so it is refused on both. -/
theorem announceChunks_alike {a b : Request σ} {value : Bytes}
    (h : Request.AgreesOff (contentEncoding :: contentLength :: transferEncoding :: names) [] a b)
    (ha : addCoding a = a.setHeader contentEncoding value)
    (hb : addCoding b = b.setHeader contentEncoding value) (hash : PayloadHash) (config : Config) :
    Outcome.Alike (Request.AgreesOff names []) (announceChunks a hash config)
      (announceChunks b hash config) := by
  have hadded := addChunkHeaders_alike h ha hb hash.signsChunks config.chunkSize
  simp only [announceChunks]
  rw [h.body, h.trailers]
  split
  · exact .error _
  · split
    · exact .error _
    · exact hadded

/-! ## Signing again -/

/-- The body is sent aws-chunked, and was not before. -/
structure SentChunked (request : Request σ) (config : Config) : Prop where
  notEncoded : NotEncoded request
  hash : ∀ hash, resolveHash request config = .ok hash → hash.streaming = true

/-- A retry decides about the body in the same way. -/
theorem SentChunked.retry (h : SentChunked request config) (hretry : config.IsRetry config') :
    SentChunked request config' where
  notEncoded := h.notEncoded
  hash := by
    intro hash hhash
    rw [resolveHash_of_isRetry hretry] at hhash
    exact h.hash hash hhash

/-- The attempts are the same but for headers that finishing edits. -/
structure AlikeAttempts (a b : Attempt σ) : Prop where
  terms : a = { b with request := a.request }
  streaming : b.hash.streaming = true
  agrees : Request.AgreesOff [authorization, dateName, tokenName, contentHash] [] a.request b.request

/-- A request whose announcement is taken back is prepared like the one that it was made from. The terms of
an attempt depend on body and trailers only, which are the same. -/
theorem SentChunked.prepare_alike (h : SentChunked request config)
    (hother : Restored request (unwrapBody other)) (clock : Clock) (identity : Identity)
    (shared : Shared) :
    Outcome.Alike AlikeAttempts (prepare clock config identity other shared)
      (prepare clock config identity request shared) := by
  have hrequest := unwrapBody_of_payload_eq_none h.notEncoded.payload
  rw [prepare_eq, prepare_eq, hrequest, terms_congr hother.agrees.body hother.agrees.trailers]
  cases hterms : terms clock config identity request shared with
  | error failure => exact .error failure
  | ok terms =>
    obtain ⟨credentials, time, hash⟩ := terms
    have hstreaming := h.hash hash (resolveHash_of_terms hterms)
    have hannounce := announceChunks_alike hother.agrees hother.coding
      (addCoding_eq h.notEncoded.coding) hash config
    show Outcome.Alike AlikeAttempts (if hash.streaming then _ else _) (if hash.streaming then _ else _)
    rw [if_pos hstreaming, if_pos hstreaming]
    exact hannounce.bind fun a b hab => .ok ⟨rfl, hstreaming, hab⟩

/-- An attempt at a body that is sent aws-chunked announces it, and keeps the body for the encoding. -/
theorem SentChunked.of_prepare (h : SentChunked request config) {attempt : Attempt σ}
    (hprepare : prepare clock config identity request shared = .ok attempt) :
    attempt.hash.streaming = true ∧ attempt.request.body = request.body
      ∧ announceChunks request attempt.hash config = .ok attempt.request := by
  have hprepared := prepare_ok hprepare
  have hunwrap := unwrapBody_of_payload_eq_none h.notEncoded.payload
  have hhash := hprepared.hash
  have hbody := hprepared.body_eq
  have hrequest := hprepared.request
  rw [hunwrap] at hhash hbody hrequest
  have hstreaming := h.hash _ hhash
  rw [if_pos hstreaming] at hrequest
  exact ⟨hstreaming, hbody, hrequest⟩

section

variable [ByteSource σ]

/-- **Signing a request whose announcement is taken back is signing the request.** The attempts differ in
headers that finishing overwrites, and the payload is not read for its hash. -/
theorem SentChunked.sign_congr (h : SentChunked request config) (hpresigned : config.presigned = false)
    (hother : Restored request (unwrapBody other)) (clock : Clock) (identity : Identity)
    (shared : Shared) :
    sign clock config identity other shared = sign clock config identity request shared := by
  have halike := h.prepare_alike hother clock identity shared
  unfold sign
  generalize prepare clock config identity other shared = prepared at halike ⊢
  generalize prepare clock config identity request shared = prepared' at halike ⊢
  cases halike with
  | error failure => rfl
  | @ok a b hab =>
    obtain ⟨hterms, hstreaming, hagrees⟩ := hab
    -- Finishing edits all the fields in which the two requests differ.
    have hfinish (text : Bytes) : Attempt.finish { b with request := a.request } config text
        = b.finish config text := by
      refine b.finish_congr ?_ text
      rw [hstreaming, editedHeaders_of_dated hpresigned, editedQueries_of_dated hpresigned,
        Bool.or_true, if_pos rfl]
      exact hagrees
    rw [hterms]
    simp only [hashPayload_of_streaming hstreaming, hfinish]
    rfl

/-- The same failure, or the same signature, the same head and a body that reads the same. -/
def SendsSame (a b : Outcome (SignedRequest σ) × Shared) : Prop :=
  Outcome.Alike (fun x y => x.signature = y.signature ∧ x.request.head = y.request.head
    ∧ ∀ lengths, x.request.body.readings lengths a.2 = y.request.body.readings lengths b.2) a.1 b.1

/-- Streams that were created since are of no account: nothing of the body refers to them, so no step of
signing sees them. -/
theorem SentChunked.sign_extended (h : SentChunked request config) (hknown : request.body.KnownIn shared)
    (more : List Nat) (clock : Clock) (identity : Identity) :
    SendsSame (sign clock config identity request (shared.extended more))
      (sign clock config identity request shared) := by
  have hprepare : prepare clock config identity request (shared.extended more)
      = prepare clock config identity request shared := by
    rw [prepare_eq, prepare_eq, unwrapBody_of_payload_eq_none h.notEncoded.payload,
      terms_congr_state (Body.consumed_extended hknown more)]
  unfold sign
  rw [hprepare]
  cases hattempt : prepare clock config identity request shared with
  | error failure => exact .error failure
  | ok attempt =>
    obtain ⟨hstreaming, hbody, -⟩ := h.of_prepare hattempt
    simp only [hashPayload_of_streaming hstreaming]
    cases hfinish : attempt.finish config attempt.hash.literal with
    | error failure => exact .error failure
    | ok finished =>
      have hfinished : finished.request.body = request.body :=
        (Attempt.finish_edited hfinish).body.trans hbody
      simp only [hstreaming, if_true]
      refine .ok ⟨rfl, rfl, fun lengths => ?_⟩
      -- The encoding has a stream of its own, which is the next one in either state.
      have hnew (more : List Nat) := Body.readings_chunked_newStream hknown more
        (attempt.chunkContext config finished) lengths
      have hnone := hnew []
      rw [Shared.extended_nil] at hnone
      show (Body.chunked _ finished.request.body _).readings _ _
        = (Body.chunked _ finished.request.body _).readings _ _
      rw [hfinished]
      exact (hnew more).trans hnone.symm

/-- What an attempt that returned leaves of the request and of the state. -/
theorem SentChunked.sign_ok (h : SentChunked request config) {signed : SignedRequest σ}
    (hsign : sign clock config identity request shared = (.ok signed, after)) :
    config.presigned = false ∧ Restored request (unwrapBody signed.request)
      ∧ after = shared.extended [0] := by
  obtain ⟨attempt, text, hashed, finished, hprepare, hhash, hfinish, hsigned⟩ := sign_steps hsign
  obtain ⟨hstreaming, hbody, hannounced⟩ := h.of_prepare hprepare
  rw [hashPayload_of_streaming hstreaming] at hhash
  obtain ⟨-, rfl⟩ := Prod.mk.inj hhash
  rw [if_pos hstreaming] at hsigned
  obtain ⟨rfl, rfl⟩ := Prod.mk.inj hsigned
  refine ⟨(announceChunks_ok hannounced).1, ?_, rfl⟩
  -- Without the encoding the request is the one that was finished.
  exact restored_of_finish h.notEncoded hannounced rfl hstreaming hfinish

/-- **Signing an encoded request again is a full retry.** The announcement of the first encoding is taken
back, so the request is signed again, at any time, like the request that it was made from, and in place of
the first time the same would have been sent. -/
theorem sign_chunked_again (hretry : config.IsRetry config') (h : SentChunked request config)
    {first : SignedRequest σ} (hfirst : sign clock config identity request shared = (.ok first, after)) :
    (∀ later, sign clock' config' identity' first.request later
        = sign clock' config' identity' request later)
      ∧ (request.body.KnownIn shared →
        SendsSame (sign clock' config' identity' first.request after)
          (sign clock' config' identity' request shared)) := by
  obtain ⟨hpresigned, hrestored, rfl⟩ := h.sign_ok hfirst
  have h' := h.retry hretry
  have hpresigned' : config'.presigned = false := by
    rw [hretry]
    exact hpresigned
  have hagain (state : Shared) : sign clock' config' identity' first.request state
      = sign clock' config' identity' request state :=
    h'.sign_congr hpresigned' hrestored clock' identity' state
  -- The first attempt has made a stream for its encoding, and the payload does not know of it.
  refine ⟨hagain, fun hknown => ?_⟩
  rw [hagain]
  exact h'.sign_extended hknown [0] clock' identity'

end

/-- A payload of unknown length that has a coding already. -/
def gzippedRequest : Request MemorySource where
  method := .put
  path := ascii "/bucket/key"
  headers := Fields.ofList .caseInsensitive
    [(ascii "Host", ascii "example.com"), (ascii "content-encoding", ascii "gzip"),
      (ascii "X-Amz-Content-SHA256", ascii "stale")]
  body := .stream 0 none true fun _ => some ⟨ascii "abc"⟩

/-- The request with a trailer that is computed while the payload is read, and the state with it. -/
def trailedRequest : Request MemorySource × Shared :=
  gzippedRequest.withSha256Trailer { openings := [0] }

/-- A compressed payload of unknown length with a declared checksum is encoded and then signed again at
another time. -/
theorem sign_chunked_again_with_trailer :
    firstConfig.IsRetry retryConfig ∧ SentChunked trailedRequest.1 firstConfig
      ∧ trailedRequest.1.body.KnownIn trailedRequest.2
      ∧ ∃ first after, sign ⟨⟨0⟩, none⟩ firstConfig (.credentials tokenCredentials) trailedRequest.1
          trailedRequest.2 = (.ok first, after)
        ∧ (∀ later, sign ⟨⟨0⟩, none⟩ retryConfig (.credentials tokenCredentials) first.request later
          = sign ⟨⟨0⟩, none⟩ retryConfig (.credentials tokenCredentials) trailedRequest.1 later)
        ∧ SendsSame
          (sign ⟨⟨0⟩, none⟩ retryConfig (.credentials tokenCredentials) first.request after)
          (sign ⟨⟨0⟩, none⟩ retryConfig (.credentials tokenCredentials) trailedRequest.1
            trailedRequest.2) := by
  have hretry : firstConfig.IsRetry retryConfig := rfl
  have hchunked : SentChunked trailedRequest.1 firstConfig := by
    refine ⟨⟨rfl, by decide, by decide, by decide⟩, fun hash hhash => ?_⟩
    have hkind : resolveHash trailedRequest.1 firstConfig = .ok { kind := .signedChunksWithTrailers } :=
      rfl
    rw [hkind] at hhash
    rw [← Except.ok.inj hhash]
    rfl
  have hknown : trailedRequest.1.body.KnownIn trailedRequest.2 := by
    have hmade : Body.ofSources (some fun _ => some (⟨ascii "abc"⟩ : MemorySource)) none true {}
        = .ok (gzippedRequest.body, { openings := [0] }) := rfl
    exact Body.knownIn_withSha256Trailer (Body.knownIn_ofSources hmade)
  have hok : (sign ⟨⟨0⟩, none⟩ firstConfig (.credentials tokenCredentials) trailedRequest.1
      trailedRequest.2).1.isOk = true := by decide +kernel
  obtain ⟨first, after, hfirst⟩ := exists_signed_of_isOk hok
  obtain ⟨hlater, hsame⟩ := sign_chunked_again hretry hchunked hfirst
  exact ⟨hretry, hchunked, hknown, first, after, hfirst, hlater, hsame hknown⟩

end Signer

end SigV4
