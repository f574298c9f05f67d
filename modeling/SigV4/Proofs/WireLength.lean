import SigV4.Proofs.ChunkRoundTrip
import SigV4.Proofs.Verification

/-!
# Announced and sent lengths

The length of an encoding is computed before anything is encoded, in words of 64 bits. It is the
number of bytes that are sent, up to the overflow of a word:

* **`encodedLength_eq`**: the words count what `encodedSize` counts without bound.
* **`sum_frameSize_slices`**: the frames of all slices have the size that quotient and remainder say,
  by induction on the slices. So has an encoding without trailers (`length_segments`), and it is what
  a stream delivers (`drains_encodedLength`).
* **`addChunkHeaders_framed`**: one header says where the encoded body ends, and what is edited after
  it leaves it alone (`FramedBy.of_edited`).
* **`sends_announced_length`**: so a request announces as many bytes as every reader of its body
  delivers.
-/

namespace SigV4

namespace Chunked

/-! ## Sizes

The length is computed in words and stated in numbers, and the two agree up to the overflow of a
word. -/

/-- The number of bytes of a frame with `n` bytes of data and both line breaks. -/
def frameSize (signed : Bool) (n : Nat) : Nat :=
  (Bytes.hexNumeral n).length + (if signed then signatureMark.length + signatureLength else 0) + n + 4

/-- The number of bytes of the whole stream over `n` bytes of payload, without trailers. -/
def encodedSize (signed : Bool) (size n : Nat) : Nat :=
  n / size * frameSize signed size + (if n % size = 0 then 0 else frameSize signed (n % size))
    + frameSize signed 0

/-- The length of a frame is computed in words. -/
theorem frameLength_eq (signed : Bool) (length : UInt64) :
    frameLength signed length = UInt64.ofNat (frameSize signed length.toNat) := by
  simp only [frameLength, frameSize, UInt64.ofNat_add, UInt64.ofNat_toNat]
  rfl

/-- **The words count bytes**, as long as they do not overflow. Sums and products of words are those of
numbers modulo 2 ^ 64, so no bound on the lengths is needed here. -/
theorem encodedLength_eq (length chunkSize : UInt64) (signed : Bool) :
    encodedLength length chunkSize signed
      = UInt64.ofNat (encodedSize signed chunkSize.toNat length.toNat) := by
  -- Quotient and remainder of words are those of the numbers. All other steps are sums and products, which
  -- words and numbers have in common up to the overflow.
  have hquotient : UInt64.ofNat (length.toNat / chunkSize.toNat) = length / chunkSize := by
    rw [← UInt64.toNat_div, UInt64.ofNat_toNat]
  have hrest : length % chunkSize = 0 ↔ length.toNat % chunkSize.toNat = 0 := by
    rw [← UInt64.toNat_inj, UInt64.toNat_mod]
    rfl
  simp only [encodedLength, encodedSize, UInt64.ofNat_add, UInt64.ofNat_mul, hquotient, hrest,
    frameLength_eq, UInt64.toNat_mod]
  split <;> rfl

/-- **The frames of all slices**: full ones, as many as the quotient says, and one for the remainder. The
induction is on the slices, and taking off a full one lowers the quotient by one and leaves the remainder.
-/
theorem sum_frameSize_slices (signed : Bool) {size : Nat} (hsize : size ≠ 0) (payload : Bytes) :
    ((slices size payload).map fun data => frameSize signed data.length).sum + frameSize signed 0
      = encodedSize signed size payload.length := by
  induction payload using slices.induct size with
  | case1 payload hend =>
    have hpayload : payload = [] := hend.resolve_left hsize
    rw [slices, if_pos hend, hpayload]
    simp [encodedSize]
  | case2 payload hmore ih =>
    rw [slices, if_neg hmore, List.map_cons, List.sum_cons, Nat.add_assoc, ih, List.length_take,
      List.length_drop]
    have hne : payload.length ≠ 0 := fun h => hmore (.inr (List.length_eq_zero_iff.mp h))
    by_cases hfull : size ≤ payload.length
    · -- One of the full slices is in front of the others.
      have hquotient : payload.length / size = (payload.length - size) / size + 1 :=
        Nat.div_eq_sub_div (Nat.pos_of_ne_zero hsize) hfull
      have hrest : payload.length % size = (payload.length - size) % size := Nat.mod_eq_sub_mod hfull
      rw [encodedSize, encodedSize, hquotient, hrest, Nat.min_eq_left hfull, Nat.add_one_mul]
      omega
    · -- The slice is the last one and shorter than the others.
      have hless : payload.length < size := Nat.lt_of_not_le hfull
      have hle : payload.length ≤ size := Nat.le_of_lt hless
      rw [encodedSize, encodedSize, Nat.min_eq_right hle, Nat.sub_eq_zero_of_le hle,
        Nat.div_eq_of_lt hless, Nat.mod_eq_of_lt hless, if_neg hne]
      simp

end Chunked

namespace ChunkContext

variable {c : ChunkContext}

/-- The frame without data ends the stream, so it has its second line break as well. -/
theorem length_chunkSegment (htrailers : c.trailers = []) (previous data : Bytes) :
    (c.chunkSegment previous data).text.length = Chunked.frameSize c.signed data.length := by
  have hline := Chunked.length_frameLine (c.signatureForm_signChunk previous data) data.length
  have htext : (c.chunkSegment previous data).text
      = Chunked.frameLine data.length (c.signChunk previous data) ++ crlf ++ data ++ crlf := by
    rw [chunkSegment, htrailers, Chunked.frame_eq]
    cases data with
    | nil => simp only [List.isEmpty_nil, Bool.and_self, if_true, List.append_nil]
    | cons b data =>
      simp only [List.isEmpty_cons, Bool.false_and, Bool.false_eq_true, if_false, List.append_nil]
  have hcrlf : crlf.length = 2 := rfl
  rw [htext, List.length_append, List.length_append, List.length_append, hline, hcrlf,
    Chunked.frameSize]
  omega

/-- The segments of some slices are the frames of the slices and the one that ends the payload. -/
theorem length_segmentsFrom (htrailers : c.trailers = []) (values : List (Bytes × Bytes))
    (previous : Bytes) (slices : List Bytes) :
    (segmentTexts (c.segmentsFrom values previous slices)).length
      = (slices.map fun data => Chunked.frameSize c.signed data.length).sum
        + Chunked.frameSize c.signed 0 := by
  induction slices generalizing previous with
  | nil =>
    -- Without trailers the last frame has its second line break, like the others.
    rw [segmentsFrom, htrailers, List.isEmpty_nil, if_pos rfl, segmentTexts_cons, segmentTexts_nil,
      List.append_nil, length_chunkSegment htrailers]
    simp
  | cons data slices ih =>
    rw [segmentsFrom, segmentTexts_cons, List.length_append, length_chunkSegment htrailers, ih,
      List.map_cons, List.sum_cons, Nat.add_assoc]

/-- **An encoding without trailers has the computed size.** Whether it is signed makes a difference to each
frame, and what the signatures are does not. -/
theorem length_segments (htrailers : c.trailers = []) (hsize : c.chunkSize ≠ 0)
    (values : List (Bytes × Bytes)) (payload : Bytes) :
    (segmentTexts (c.segments values payload)).length
      = Chunked.encodedSize c.signed c.chunkSize.toNat payload.length := by
  have hsize' : c.chunkSize.toNat ≠ 0 := fun h => hsize (UInt64.toNat_inj.mp h)
  rw [segments, length_segmentsFrom htrailers, Chunked.sum_frameSize_slices _ hsize']

end ChunkContext

/-! ## Streams -/

/-- Read to its end in whatever pieces, the source returns `length` bytes, up to the overflow of a
word. -/
structure Pull.DrainsLength {ρ : Type} (pull : Pull ρ) (source : ρ) (shared : Shared)
    (length : UInt64) : Prop where
  drains : ∃ text, pull.Drains source shared text
  length_eq : ∀ text, pull.Drains source shared text → length.toNat = text.length % 2 ^ 64

/-- **A stream without trailers delivers as many bytes as are computed** for a payload of `length`
bytes. -/
theorem ChunkStream.drains_encodedLength {ρ : Type} {pull : Pull ρ} {c : ChunkContext} {source : ρ}
    {payload : Bytes} (hsource : Supplies pull source payload) {length : UInt64}
    (hlength : payload.length = length.toNat) (hsize : c.chunkSize ≠ 0) (htrailers : c.trailers = [])
    (shared : Shared) :
    ∃ stream, start (some source) c = .ok stream
      ∧ (ChunkStream.pull pull).DrainsLength stream shared
        (Chunked.encodedLength length c.chunkSize c.signed) := by
  have hvalues : Resolved shared c.trailers [] := by
    rw [htrailers]
    exact .nil
  obtain ⟨stream, hstart, hstream⟩ := start_reached [] hsource hsize
  refine ⟨stream, hstart, ⟨_, (hstream.drains_iff hsize hvalues).mpr rfl⟩, fun text htext => ?_⟩
  rw [← (hstream.drains_iff hsize hvalues).mp htext, ChunkContext.length_segments htrailers hsize,
    Chunked.encodedLength_eq, UInt64.toNat_ofNat', hlength]

/-! ## Bodies -/

namespace Body

variable {σ : Type} {id : StreamId} {payload : Body σ} {c : ChunkContext}

/-- Wherever the payload has a reader, the encoding has one on it. -/
theorem openReader_chunked {shared opened : Shared} {inner : Reader σ}
    {stream : ChunkStream (inner.layers.State σ)}
    (hunread : (chunked id payload c).consumed shared = false)
    (hinner : payload.openReader (shared.countOpening id) = (.ok (some inner), opened))
    (hstart : ChunkStream.start (some inner.state) c = .ok stream) :
    (chunked id payload c).openReader shared
      = (.ok (some ⟨.chunked inner.layers, stream⟩), opened) := by
  rw [openReader, hunread, if_neg Bool.false_ne_true]
  simp only [hinner, hstart]
  rfl

end Body

/-! ## Requests

One of two headers says where a body ends. Signing sets the one and removes the other. -/

namespace Signer

variable {σ : Type} {clock : Clock} {config : Config} {identity : Identity}
  {request announced : Request σ} {shared shared' : Shared}

/-- Of the two headers that say where a body ends there is exactly one, and it says the length if that
is known. -/
def FramedBy (headers : Headers) : Option UInt64 → Prop
  | some length => headers.values contentLength = [Bytes.decimal length.toNat]
      ∧ headers.values transferEncoding = []
  | none => headers.values contentLength = []
      ∧ headers.values transferEncoding = [ascii "chunked"]

/-- Edits of other headers leave the framing alone. -/
theorem FramedBy.of_edited {headers edited : Headers} {names : List Bytes} {length : Option UInt64}
    (h : FramedBy headers length) (hedited : headers.EditedAt names edited)
    (hcontent : ∀ name ∈ names, toLower name ≠ toLower contentLength)
    (htransfer : ∀ name ∈ names, toLower name ≠ toLower transferEncoding) :
    FramedBy edited length := by
  have hlength : edited.values contentLength = headers.values contentLength :=
    hedited.values_eq hcontent
  have hcoding : edited.values transferEncoding = headers.values transferEncoding :=
    hedited.values_eq htransfer
  unfold FramedBy
  rw [hlength, hcoding]
  exact h

/-- The length that is announced for this request's body: that of its encoding, if nothing prevents
that it is known. -/
def announcedLength? (request : Request σ) (signed : Bool) (chunkSize : UInt64) : Option UInt64 :=
  if request.trailers.isEmpty then
    request.body.contentLength.map (Chunked.encodedLength · chunkSize signed)
  else
    none

/-- A length is announced if that of the payload is known and there are no trailers. -/
theorem announcedLength?_eq_some_iff {signed : Bool} {chunkSize encoded : UInt64} :
    announcedLength? request signed chunkSize = some encoded ↔ request.trailers = []
      ∧ ∃ length, request.body.contentLength = some length
        ∧ Chunked.encodedLength length chunkSize signed = encoded := by
  unfold announcedLength?
  split
  next htrailers =>
    rw [Option.map_eq_some_iff]
    exact (and_iff_right (List.isEmpty_iff.mp htrailers)).symm
  next htrailers =>
    exact iff_of_false nofun fun h => htrailers (List.isEmpty_iff.mpr h.1)

/-- In all other cases none is. -/
theorem announcedLength?_eq_none_iff {signed : Bool} {chunkSize : UInt64} :
    announcedLength? request signed chunkSize = none
      ↔ request.body.contentLength = none ∨ request.trailers ≠ [] := by
  unfold announcedLength?
  split
  next htrailers =>
    rw [Option.map_eq_none_iff]
    exact (or_iff_left (not_not_intro (List.isEmpty_iff.mp htrailers))).symm
  next htrailers =>
    exact iff_of_true rfl (.inr (mt List.isEmpty_iff.mpr htrailers))

/-- Of the two headers the one is set and the other removed, so the request is framed whatever it had
before. -/
theorem addLength_framed {signed : Bool} {chunkSize : UInt64}
    (h : addLength request signed chunkSize = .ok announced) :
    FramedBy announced.headers (announcedLength? request signed chunkSize) := by
  have hne : toLower contentLength ≠ toLower transferEncoding := by decide
  unfold addLength at h
  split at h
  next length hlength htrailers =>
    obtain ⟨encoded, hencoded, h⟩ := Outcome.bind_eq_ok.mp h
    obtain rfl := Outcome.pure_eq_ok.mp h
    unfold Chunked.encodedLength? at hencoded
    split at hencoded
    · simp at hencoded
    · obtain rfl := Except.ok.inj hencoded
      rw [announcedLength?, htrailers, hlength]
      refine ⟨Fields.values_set_self _ _ _, ?_⟩
      exact (Fields.values_set_of_ne hne _ _).trans (Fields.values_erase_self _ _)
  next hunknown =>
    obtain rfl := Outcome.pure_eq_ok.mp h
    -- No length is announced, since that of the payload is unknown or there are trailers.
    have hnone : announcedLength? request signed chunkSize = none := by
      rw [announcedLength?_eq_none_iff, or_iff_not_imp_right, not_not]
      exact fun htrailers =>
        Option.eq_none_iff_forall_ne_some.mpr fun length hlength => hunknown length hlength htrailers
    rw [hnone]
    refine ⟨?_, Fields.values_set_self _ _ _⟩
    exact (Fields.values_set_of_ne hne.symm _ _).trans (Fields.values_erase_self _ _)

/-- **Announcing chunks frames the request**, and the length of the payload goes with it if it is
known. -/
theorem addChunkHeaders_framed {signed : Bool} {chunkSize : UInt64}
    (h : addChunkHeaders request signed chunkSize = .ok announced) :
    FramedBy announced.headers (announcedLength? request signed chunkSize)
      ∧ ∀ length, request.body.contentLength = some length →
        announced.headers.values decodedLength = [Bytes.decimal length.toNat] := by
  obtain ⟨measured, hmeasured, h⟩ := Outcome.bind_eq_ok.mp h
  obtain rfl := Outcome.pure_eq_ok.mp h
  have hcoding := addCoding_edited request
  have hlength := addLength_edited hmeasured
  have hdecoded := (addDecodedLength_edited measured).headers
  have hnames := (addTrailerNames_edited (addDecodedLength measured)).headers
  have hbody : measured.body = request.body := hlength.body.trans hcoding.body
  constructor
  · have hframed := addLength_framed hmeasured
    rw [announcedLength?, hcoding.body, hcoding.trailers] at hframed
    exact (hframed.of_edited hdecoded (by decide) (by decide)).of_edited hnames (by decide) (by decide)
  · intro length hknown
    rw [hnames.values_eq (by decide), addDecodedLength, hbody, hknown]
    exact Fields.values_set_self _ _ _

/-- How a request is sent whose body encodes `payload`. -/
structure SendsEncoding [ByteSource σ] (sent : Request σ) (id : StreamId) (payload : Body σ) :
    Prop where
  framed : FramedBy sent.headers sent.body.contentLength
  /-- The length is known if that of the payload is and there are no trailers, and only then. -/
  known : ∀ length, payload.contentLength = some length → sent.trailers = [] →
    ∃ encoded, sent.body.contentLength = some encoded
  unknown : payload.contentLength = none ∨ sent.trailers ≠ [] → sent.body.contentLength = none
  decoded : ∀ length, payload.contentLength = some length →
    sent.headers.values decodedLength = [Bytes.decimal length.toNat]
  /-- Where the payload has a reader that supplies as many bytes as it was said to have, the body has
  one that delivers as many as are announced. -/
  delivered : ∀ {length encoded : UInt64} {opening opened : Shared} {inner : Reader σ} {content : Bytes},
    payload.contentLength = some length → sent.body.contentLength = some encoded →
    sent.body.consumed opening = false →
    payload.openReader (opening.countOpening id) = (.ok (some inner), opened) →
    Supplies inner.layers.pull inner.state content → content.length = length.toNat →
    ∃ reader, sent.body.openReader opening = (.ok (some reader), opened)
      ∧ reader.layers.pull.DrainsLength reader.state opened encoded

/-- A body is encoded if its place in the signature says so. -/
theorem body_eq_of_streaming [ByteSource σ] {signed : SignedRequest σ} {hash : PayloadHash}
    (h : sign clock config identity request shared = (.ok signed, shared'))
    (hhash : resolveHash (unwrapBody request) config = .ok hash) (hstreaming : hash.streaming = true) :
    ∃ id context, signed.request.body = .chunked id (unwrapBody request).body context := by
  obtain ⟨hash', text, hashed, hhash', -, hbody⟩ := sign_body h
  obtain rfl := Except.ok.inj (hhash.symm.trans hhash')
  rcases hbody with ⟨hplain, -⟩ | ⟨context, -, -, -, hbody, -⟩
  · exact absurd hstreaming (Bool.eq_false_iff.mp hplain)
  · exact ⟨_, context, hbody⟩

/-- A request whose body was encoded by this signing is sent so. The headers that frame it are those that
were announced, since finishing edits others, and the length of the body is by definition the one that was
announced. -/
theorem sign_sendsEncoding [ByteSource σ] {signed : SignedRequest σ}
    (h : sign clock config identity request shared = (.ok signed, shared')) {id : StreamId}
    {payload : Body σ} {context : ChunkContext} (hbody : signed.request.body = .chunked id payload context)
    (hencoded : (unwrapBody request).body ≠ signed.request.body) :
    payload = (unwrapBody request).body ∧ SendsEncoding signed.request id payload := by
  obtain ⟨attempt, hash, hashed, finished, hprepared, -, hfinish, hsigned⟩ := sign_ok h
  have hfinished := Attempt.finish_edited hfinish
  have hpayload : finished.request.body = (unwrapBody request).body :=
    hfinished.body.trans hprepared.body_eq
  split at hsigned
  next hstreaming =>
    obtain ⟨rfl, rfl⟩ := Prod.mk.inj hsigned
    obtain ⟨rfl, rfl, rfl⟩ := Body.chunked.inj hbody
    have hrequest := hprepared.request
    rw [if_pos hstreaming] at hrequest
    have hadded := (announceChunks_ok hrequest).2
    obtain ⟨hframed, hdecoded⟩ := addChunkHeaders_framed hadded
    have hannounced := addChunkHeaders_edited hadded
    have htrailers : finished.request.trailers = (unwrapBody request).trailers :=
      hfinished.trailers.trans hannounced.trailers
    -- Trailers and body are those of the request, and so is the length that is announced for them.
    have hsame : announcedLength? finished.request attempt.hash.signsChunks config.chunkSize
        = announcedLength? (unwrapBody request) attempt.hash.signsChunks config.chunkSize := by
      rw [announcedLength?, announcedLength?, htrailers, hpayload]
    -- Finishing edits none of the headers that announce the encoding.
    have hheaders := hfinished.headers.mono (editedHeaders_subset config attempt.hash.streaming)
    refine ⟨hpayload, ?_, ?_, ?_, ?_, ?_⟩
    · -- The length that was announced is by definition that of the body.
      rw [← hsame] at hframed
      exact hframed.of_edited hheaders (by decide) (by decide)
    · intro length hknown hnone
      exact ⟨_, announcedLength?_eq_some_iff.mpr ⟨hnone, length, hknown, rfl⟩⟩
    · intro hunknown
      exact announcedLength?_eq_none_iff.mpr hunknown
    · intro length hknown
      rw [hpayload] at hknown
      exact (hheaders.values_eq (by decide)).trans (hdecoded length hknown)
    · intro length encoded opening opened inner content hknown hlength hunread hinner hsource hcontent
      obtain ⟨hnone, length', hknown', rfl⟩ := announcedLength?_eq_some_iff.mp hlength
      obtain rfl := Option.some.inj (hknown.symm.trans hknown')
      have hsize : (attempt.chunkContext config finished).chunkSize ≠ 0 :=
        Config.chunkSize_ne_zero hprepared.valid
      have hempty : (attempt.chunkContext config finished).trailers = [] := hnone
      obtain ⟨stream, hstart, hdrains⟩ :=
        ChunkStream.drains_encodedLength hsource hcontent hsize hempty opened
      exact ⟨_, Body.openReader_chunked hunread hinner hstart, hdrains⟩
  next =>
    obtain ⟨rfl, rfl⟩ := Prod.mk.inj hsigned
    -- Any other body is sent as it was.
    exact absurd hpayload.symm hencoded

/-- **The length that is announced is the length that is sent.** A stream without trailers delivers as
many bytes as are computed for its payload, up to the overflow of a word. Where signing encodes a body,
so that an encoding is returned which is not the payload that was handed in, one header says where the
body ends. It announces the length if that is known, and every reader of the body delivers it. -/
theorem sends_announced_length :
    (∀ {ρ : Type} {pull : Pull ρ} {c : ChunkContext} {source : ρ} {payload : Bytes} {length : UInt64},
      Supplies pull source payload → payload.length = length.toNat → c.chunkSize ≠ 0 →
      c.trailers = [] → ∀ shared : Shared, ∃ stream, ChunkStream.start (some source) c = .ok stream
        ∧ (ChunkStream.pull pull).DrainsLength stream shared
          (Chunked.encodedLength length c.chunkSize c.signed))
    ∧ ∀ {σ : Type} [ByteSource σ] {clock : Clock} {config : Config} {identity : Identity}
        {request : Request σ} {shared shared' : Shared} {signed : SignedRequest σ} {id : StreamId}
        {payload : Body σ} {context : ChunkContext},
      sign clock config identity request shared = (.ok signed, shared') →
      signed.request.body = .chunked id payload context →
      (unwrapBody request).body ≠ signed.request.body →
      payload = (unwrapBody request).body ∧ SendsEncoding signed.request id payload := by
  constructor
  · intro ρ pull c source payload length hsource hlength hsize htrailers shared
    exact ChunkStream.drains_encodedLength hsource hlength hsize htrailers shared
  · intro σ _ clock config identity request shared shared' signed id payload context h hbody hencoded
    exact sign_sendsEncoding h hbody hencoded

/-- A payload of two full chunks, and a request whose body is held in memory. -/
theorem sends_announced_length_of_full_chunks :
    (∃ stream, ChunkStream.start (some (MemorySource.mk (ascii "abcdef")))
        { ChunkStream.sampleContext with trailers := [] } = .ok stream
      ∧ (ChunkStream.pull ByteSource.pull).DrainsLength stream {} (Chunked.encodedLength 6 3 true))
    ∧ ∃ signed shared' id, sign ⟨⟨0⟩, none⟩ sampleConfig (.credentials sampleCredentials) sampleRequest {}
        = (.ok signed, shared')
      ∧ SendsEncoding signed.request id (.bytes (ascii "abc")) := by
  constructor
  · have hlength : (ascii "abcdef").length = (6 : UInt64).toNat := by decide
    exact sends_announced_length.1 (supplies_memory _) hlength (by decide) rfl {}
  · have hok : (sign ⟨⟨0⟩, none⟩ sampleConfig (.credentials sampleCredentials) sampleRequest
        {}).1.isOk = true := by decide +kernel
    obtain ⟨signed, shared', hsign⟩ := exists_signed_of_isOk hok
    have hkind : resolveHash (unwrapBody sampleRequest) sampleConfig = .ok { kind := .signedChunks } :=
      rfl
    obtain ⟨id, context, hbody⟩ := body_eq_of_streaming hsign hkind rfl
    have hencoded : (unwrapBody sampleRequest).body ≠ signed.request.body := by
      rw [hbody]
      exact nofun
    exact ⟨signed, shared', id, hsign, (sends_announced_length.2 hsign hbody hencoded).2⟩

end Signer

end SigV4
