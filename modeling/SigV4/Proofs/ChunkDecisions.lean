import SigV4.Proofs.Resigning

/-!
# When a body is sent aws-chunked

Two functions tell whether a body is sent aws-chunked: `sendsChunks`, which is asked beforehand, and
`resolveHash`, which signing goes by. They weigh the trailers, the kind of the body, its length and whether
it can be read again in different orders:

* **`sendsChunks_iff`**, **`streaming_iff`**: each of them as one condition. Only a stream that is known to
  be empty tells them apart.
* **`decisions_agree_iff`**: so they agree unless that stream is one-shot and encoding it is allowed.
* **`sign_encodes_iff`**: and there it is `sendsChunks` that is wrong about what signing does.
-/

namespace SigV4.Signer

variable {σ : Type} {request : Request σ} {config : Config} {hash : PayloadHash}

/-! ## The two conditions

The one asks what may be encoded, the other what signing does with it. They are stated as conditions
on the request. -/

/-- The configuration allows to encode streams, the length of this one is known, and it is one-shot or
large. -/
structure Eligible (request : Request σ) (config : Config) : Prop where
  allowed : config.chunksAllowed = true
  stream : request.body.kind = .streaming
  length : ∃ length, request.body.contentLength = some length
    ∧ (request.body.replayable = false ∨ config.chunksThreshold < length)

/-- The stream is known to be empty and can be read only once, it may be encoded, and nothing is sent
behind it. -/
structure EmptyOneShot (request : Request σ) (config : Config) : Prop where
  allowed : config.chunksAllowed = true
  stream : request.body.kind = .streaming
  length : request.body.contentLength = some 0
  oneShot : request.body.replayable = false
  trailers : request.trailers = []

/-- What is said beforehand as one condition: something is sent behind the payload, or the stream is
eligible. Trailers are looked at first, and only without them the length of the stream. -/
theorem sendsChunks_iff :
    sendsChunks request config = true ↔ request.trailers ≠ [] ∨ Eligible request config := by
  unfold sendsChunks
  by_cases htrailers : request.trailers = []
  · rw [htrailers]
    constructor
    · intro h
      split at h
      next hdeclared => exact absurd hdeclared (by simp)
      next =>
        split at h
        next length hkind hlength =>
          obtain ⟨hallowed, hreason⟩ : config.chunksAllowed = true
              ∧ (request.body.replayable = false ∨ config.chunksThreshold < length) := by simpa using h
          exact .inr ⟨hallowed, hkind, length, hlength, hreason⟩
        next => exact absurd h Bool.false_ne_true
    · -- There are no trailers here, so the stream is eligible.
      rintro (hdeclared | ⟨hallowed, hkind, length, hlength, hreason⟩)
      · exact absurd rfl hdeclared
      · rw [hkind, hlength]
        simpa [hallowed] using hreason
  · simp [htrailers]

/-- A stream is not taken for empty before it is read, whatever it was wrapped in. So only an announced
length of zero tells that it is. -/
theorem isEmpty_of_stream {body : Body σ} (h : body.kind = .streaming) : body.isEmpty = false := by
  cases body with
  | empty => exact absurd h (by simp [Body.kind])
  | bytes content => exact absurd h (by simp [Body.kind])
  | stream => rfl
  | checksummed => rfl
  | chunked => rfl

/-- What signing decides as one condition. Trailers are looked at first here as well, and then whether the
body is empty: an eligible body is encoded if it is not known to be empty. -/
theorem streaming_iff (hchoice : config.hashOverride = none)
    (h : resolveHash request config = .ok hash) :
    hash.streaming = true
      ↔ request.trailers ≠ [] ∨ Eligible request config ∧ request.body.contentLength ≠ some 0 := by
  unfold resolveHash at h
  rw [hchoice] at h
  obtain rfl := Except.ok.inj h
  by_cases htrailers : request.trailers = []
  · have heligible : sendsChunks request config = true ↔ Eligible request config := by
      rw [sendsChunks_iff, or_iff_right (not_not_intro htrailers)]
    have hnone : (!request.trailers.isEmpty) = false := by simp [htrailers]
    rw [or_iff_right (not_not_intro htrailers), hnone, if_neg Bool.false_ne_true]
    -- The order of the questions matters: emptiness is asked before `sendsChunks` is.
    by_cases hempty : (request.body.isEmpty
        || (request.body.kind == .streaming && request.body.contentLength == some 0)) = true
    · rw [if_pos hempty]
      refine iff_of_false Bool.false_ne_true fun ⟨hoffered, hlength⟩ => hlength ?_
      simpa [isEmpty_of_stream hoffered.stream, hoffered.stream] using hempty
    · rw [if_neg hempty]
      by_cases hsent : sendsChunks request config = true
      · rw [if_pos hsent]
        have hoffered := heligible.mp hsent
        refine iff_of_true rfl ⟨hoffered, ?_⟩
        simpa [isEmpty_of_stream hoffered.stream, hoffered.stream] using hempty
      · rw [if_neg hsent]
        refine iff_of_false ?_ fun ⟨hoffered, _⟩ => hsent (heligible.mpr hoffered)
        split
        · exact Bool.false_ne_true
        · exact Bool.false_ne_true
  · -- Trailers are never sent without an encoding.
    have hsome : (!request.trailers.isEmpty) = true := by simpa using htrailers
    rw [hsome, if_pos rfl]
    refine iff_of_true ?_ (.inl htrailers)
    cases config.unsignedPayload with
    | true => rfl
    | false => rfl

/-- A stream that is known to be empty can be eligible, and then it is one-shot: no threshold is below zero,
so being large is not its reason. -/
theorem emptyOneShot_iff :
    EmptyOneShot request config
      ↔ request.trailers = [] ∧ Eligible request config ∧ request.body.contentLength = some 0 := by
  constructor
  · rintro ⟨hallowed, hstream, hlength, honeShot, htrailers⟩
    exact ⟨htrailers, ⟨hallowed, hstream, 0, hlength, .inl honeShot⟩, hlength⟩
  · rintro ⟨htrailers, ⟨hallowed, hstream, length, hlength, hreason⟩, hzero⟩
    obtain rfl := Option.some.inj (hlength.symm.trans hzero)
    -- No threshold is below zero.
    have honeShot := hreason.resolve_right (Nat.not_lt_zero _)
    exact ⟨hallowed, hstream, hzero, honeShot, htrailers⟩

/-! ## Whether they agree -/

/-- Signing encodes what is said to be encoded, except for the empty one-shot stream. The two conditions are
compared as propositions, with no more cases of the body or the configuration. -/
theorem streaming_iff_sendsChunks (hchoice : config.hashOverride = none)
    (h : resolveHash request config = .ok hash) :
    hash.streaming = true ↔ sendsChunks request config = true ∧ ¬ EmptyOneShot request config := by
  rw [streaming_iff hchoice h, sendsChunks_iff, emptyOneShot_iff]
  constructor
  · rintro (htrailers | ⟨heligible, hlength⟩)
    · exact ⟨.inl htrailers, fun hempty => htrailers hempty.1⟩
    · exact ⟨.inr heligible, fun hempty => hlength hempty.2.2⟩
  · rintro ⟨htrailers | heligible, hnot⟩
    · exact .inl htrailers
    · -- With trailers the length of the stream is not asked for.
      by_cases htrailers : request.trailers = []
      · exact .inr ⟨heligible, fun hlength => hnot ⟨htrailers, heligible, hlength⟩⟩
      · exact .inl htrailers

/-- **The two decisions agree** unless the body is a one-shot stream that is known to be empty and could be
encoded. That one is said to be sent aws-chunked, and is signed as an empty body. Without an override the
hash always exists, so the statement is about every request. -/
theorem decisions_agree_iff (hchoice : config.hashOverride = none) :
    ∃ hash, resolveHash request config = .ok hash
      ∧ ((sendsChunks request config = true ↔ hash.streaming = true) ↔ ¬ EmptyOneShot request config)
      ∧ (EmptyOneShot request config → sendsChunks request config = true ∧ hash.streaming = false) := by
  obtain ⟨hash, hhash⟩ : ∃ hash, resolveHash request config = .ok hash := by
    unfold resolveHash
    rw [hchoice]
    exact ⟨_, rfl⟩
  have hstreaming := streaming_iff_sendsChunks hchoice hhash
  have hempty (h : EmptyOneShot request config) :
      sendsChunks request config = true ∧ hash.streaming = false := by
    refine ⟨sendsChunks_iff.mpr (.inr (emptyOneShot_iff.mp h).2.1), ?_⟩
    rw [Bool.eq_false_iff]
    exact fun hsent => (hstreaming.mp hsent).2 h
  refine ⟨hash, hhash, ⟨fun hsame h => ?_, fun h => ?_⟩, hempty⟩
  · obtain ⟨hsent, hplain⟩ := hempty h
    exact Bool.eq_false_iff.mp hplain (hsame.mp hsent)
  · exact ⟨fun hsent => hstreaming.mpr ⟨hsent, h⟩, fun hsent => (hstreaming.mp hsent).1⟩

/-- An upload from a one-shot stream of known length. -/
def oneShotUpload (content : Bytes) : Request MemorySource where
  body := .stream 0 (some content.length.toUInt64) false fun _ => some ⟨content⟩

def eagerConfig : Config where
  chunksAllowed := true

/-- An upload of three bytes is decided upon in one way. -/
theorem decisions_agree_iff_of_upload :
    let request := oneShotUpload (ascii "abc")
    eagerConfig.hashOverride = none
      ∧ ∃ hash, resolveHash request eagerConfig = .ok hash
        ∧ ((sendsChunks request eagerConfig = true ↔ hash.streaming = true)
          ↔ ¬ EmptyOneShot request eagerConfig)
        ∧ (EmptyOneShot request eagerConfig →
          sendsChunks request eagerConfig = true ∧ hash.streaming = false) :=
  ⟨rfl, decisions_agree_iff rfl⟩

/-- A stream of length zero is said to be encoded, and the hash that is signed with is one for a body that
is sent as it is. -/
theorem empty_upload_is_disputed :
    eagerConfig.hashOverride = none ∧ sendsChunks (oneShotUpload []) eagerConfig = true
      ∧ ∃ hash, resolveHash (oneShotUpload []) eagerConfig = .ok hash ∧ hash.streaming = false :=
  ⟨rfl, rfl, _, rfl, rfl⟩

/-- **Signing goes by the hash**: a payload is encoded if it is said to be, but for that stream. So
`sendsChunks` is right about every body that was not encoded before, with this one exception. -/
theorem sign_encodes_iff [ByteSource σ] {clock : Clock} {identity : Identity} {shared shared' : Shared}
    {signed : SignedRequest σ} (hchoice : config.hashOverride = none)
    (hpayload : request.body.payload? = none)
    (h : sign clock config identity request shared = (.ok signed, shared')) :
    (∃ id context, signed.request.body = .chunked id request.body context)
      ↔ sendsChunks request config = true ∧ ¬ EmptyOneShot request config := by
  obtain ⟨hash, text, hashed, hhash, -, hbody⟩ := sign_body h
  rw [unwrapBody_of_payload_eq_none hpayload] at hhash hbody
  rw [← streaming_iff_sendsChunks hchoice hhash]
  -- A body that is sent as it is was no encoding before, and is none now.
  rcases hbody with ⟨hplain, hsame, -⟩ | ⟨context, hencoded, -, -, hbody, -⟩
  · refine iff_of_false ?_ (Bool.eq_false_iff.mp hplain)
    rintro ⟨id, context, hbody⟩
    rw [← hsame, hbody] at hpayload
    exact absurd hpayload (by simp [Body.payload?])
  · exact iff_of_true ⟨_, context, hbody⟩ hencoded

end SigV4.Signer
