import SigV4.Proofs.ReadingRules
import SigV4.Proofs.Refusals

/-!
# Failures that a body hands on

To read a body is to run code of the caller: the sources of its streams, and whoever settles the trailers of
an encoding. The layers in between have failures of their own, and none of these is worth another attempt.
So a failure that is comes from the caller's code, as it was reported there:

* **`ByteSource.Reports`**, **`Body.Reports`**: what the caller's code can report to a reader of the body.
* **`Shared.Spares`**: the trailers may be settled while a body is read, but not to such a failure.
* **`Layers.pull_spares`**: a reading whose source and whose trailers do not report it does not fail with it,
  by induction on the layers.
* **`Signer.hashPayload_reports`**: hashing a payload fails so only if the payload reports it.
-/

namespace SigV4

open Outcome

/-- A failure that is worth another attempt is none of those that are not. -/
theorem Failure.ne_of_retryable {failure other : Failure} (h : failure.retryable = true)
    (hother : other.retryable = false) : other ≠ failure := by
  rintro rfl
  exact Bool.false_ne_true (hother.symm.trans h)

/-! ## Who reports a failure -/

/-- A reading of this source meets the failure, at once or behind other readings, which may fail too. -/
inductive ByteSource.Reports {σ : Type} [ByteSource σ] (failure : Failure) : σ → Prop where
  | now {source : σ} (n : Nat) (h : (ByteSource.read n source).1 = .error failure) :
      Reports failure source
  | later {source : σ} (n : Nat) (h : Reports failure (ByteSource.read n source).2) :
      Reports failure source

/-- A reader of this body can be told of the failure by code of the caller: by a source that the body's
factory returns, or by the settled value of a trailer that is sent behind an encoded payload. -/
inductive Body.Reports {σ : Type} [ByteSource σ] (failure : Failure) (shared : Shared) :
    Body σ → Prop where
  | source {id : StreamId} {length : Option UInt64} {replayable : Bool} {sources : Nat → Option σ}
      {count : Nat} {source : σ} (hsource : sources count = some source)
      (h : ByteSource.Reports failure source) :
      Reports failure shared (.stream id length replayable sources)
  | checksummed {id : StreamId} {inner : Body σ} {trailer : TrailerId} (h : Reports failure shared inner) :
      Reports failure shared (.checksummed id inner trailer)
  | payload {id : StreamId} {payload : Body σ} {context : ChunkContext}
      (h : Reports failure shared payload) : Reports failure shared (.chunked id payload context)
  | trailer {id : StreamId} {payload : Body σ} {context : ChunkContext} {trailer : Trailer}
      (htrailer : trailer ∈ context.trailers) (h : shared.trailer? trailer.value = some (.error failure)) :
      Reports failure shared (.chunked id payload context)

/-! ## Trailers that are settled on the way -/

/-- No trailer has come to this failure since. A trailer that had before keeps it. -/
def Shared.Spares (failure : Failure) (start later : Shared) : Prop :=
  ∀ id, later.trailer? id = some (.error failure) → start.trailer? id = some (.error failure)

namespace Shared.Spares

variable {start later : Shared} {failure : Failure}

/-- To open a stream is no reason for a trailer to settle. -/
theorem of_trailers (hsame : later.trailers = start.trailers) : start.Spares failure later := by
  intro id h
  rwa [trailer?, hsame] at h

/-- A layer settles its trailer to a checksum, or to the failure that it met. If this is not the one in
question, the trailer stays spared: by its new value, or by the one that it had and keeps. -/
theorem settle (h : start.Spares failure later) {value : Outcome Bytes}
    (hvalue : Outcome.Avoids failure value) (id : TrailerId) :
    start.Spares failure (later.settle id value) := by
  intro other hother
  by_cases hsame : other = id
  · subst hsame
    by_cases hlt : other < later.trailers.length
    · rw [trailer?_settle_self hlt] at hother
      cases hsettled : later.trailer? other with
      | none =>
        rw [hsettled] at hother
        exact absurd (Option.some.inj hother) hvalue
      | some settled =>
        rw [hsettled] at hother
        exact h other (hsettled.trans hother)
    · -- There is no such trailer, and settling it does not make one.
      rw [trailer?, List.getElem?_eq_none (by simpa using hlt)] at hother
      contradiction
  · rw [trailer?_settle_of_ne hsame] at hother
    exact h other hother

end Shared.Spares

section

variable {σ : Type} [ByteSource σ] {failure : Failure} {start shared : Shared}

/-- A trailer cannot be sent where it has failed, where its value would break its line and where it has
none yet. Only the first of these can be worth another attempt, and then the trailer has settled to it. -/
theorem Trailer.resolve_avoids (hretryable : failure.retryable = true) {trailer : Trailer}
    (hsettled : shared.trailer? trailer.value ≠ some (.error failure)) :
    Outcome.Avoids failure (trailer.resolve shared) := by
  unfold Trailer.resolve
  split
  · exact avoids_error (Failure.ne_of_retryable hretryable rfl)
  next other hvalue => exact avoids_error fun heq => hsettled (heq ▸ hvalue)
  · split
    · exact avoids_error (Failure.ne_of_retryable hretryable rfl)
    · exact avoids_ok _

/-! ## Reading -/

/-- The source at the bottom of these layers does not report the failure, and at the `start` no trailer
of an encoding among them had settled to it. -/
def Layers.Quiet (failure : Failure) (start : Shared) : (layers : Layers) → layers.State σ → Prop
  | memory, _ => True
  | caller, source => ¬ ByteSource.Reports (σ := σ) failure source
  | checksummed inner, state => inner.Quiet failure start (Checksummed.inner state)
  | chunked inner, state => inner.Quiet failure start (ChunkStream.source state)
      ∧ ∀ trailer ∈ (ChunkStream.context state).trailers,
        start.trailer? trailer.value ≠ some (.error failure)

/-- **A reading fails so only if it is told to.** The layers stay quiet while they are read, as what their
source reports behind a reading it reports already; and the trailers that they settle are spared. -/
theorem Layers.pull_spares (hretryable : failure.retryable = true) (layers : Layers) :
    (layers.pull (σ := σ)).Keeps
      (fun state shared => layers.Quiet failure start state ∧ start.Spares failure shared)
      fun other _ _ => other ≠ failure := by
  induction layers with
  | memory => exact fun _ _ _ h => h
  | caller =>
    rintro n source shared ⟨hquiet, hspares⟩
    change σ at source
    change ¬ ByteSource.Reports failure source at hquiet
    show Ends _ _ ((ByteSource.read n source).1, (ByteSource.read n source).2, shared)
    -- The caller's code is asked here, and it is the only layer that can report the failure itself.
    cases houtcome : (ByteSource.read n source).1 with
    | error other => exact fun heq => hquiet (.now n (heq ▸ houtcome))
    | ok piece => exact ⟨fun hlater => hquiet (.later n hlater), hspares⟩
  | checksummed inner ih =>
    intro n c shared h
    have hread := ih n (Checksummed.inner c) shared h
    generalize hresult : (checksummed inner).pull n c shared = result
    cases Checksummed.pulled hresult with
    | nothing => exact h
    | failure hopen heq =>
      rw [heq] at hread
      exact hread
    | finish hopen heq =>
      rw [heq] at hread
      exact ⟨hread.1, hread.2.settle (avoids_ok _) _⟩
    | piece hopen heq =>
      rw [heq] at hread
      exact hread
  | chunked inner ih =>
    rintro n s shared ⟨⟨hquiet, htrailers⟩, hspares⟩
    -- A trailer that has the failure when it is to be sent would have had it at the start.
    have hsent (source : inner.State σ) (later : Shared) (other : Failure)
        (hkept : inner.Quiet failure start source ∧ start.Spares failure later)
        (hresolve : (ChunkStream.context s).trailers.mapM (·.resolve later) = .error other) :
        other ≠ failure := by
      have hresolved : Outcome.Avoids failure
          ((ChunkStream.context s).trailers.mapM (·.resolve later)) :=
        Outcome.Avoids.mapM fun trailer htrailer =>
          trailer.resolve_avoids hretryable fun hnow => htrailers trailer htrailer (hkept.2 _ hnow)
      rintro rfl
      exact hresolved hresolve
    have hends := ChunkStream.pull_ends_of_context (ChunkStream.context s) ih hsent n s shared
      ⟨rfl, hquiet, hspares⟩
    refine hends.imp fun s' later h => ⟨⟨h.2.1, ?_⟩, h.2.2⟩
    rw [h.1]
    exact htrailers

/-- A digest is one reading after the other. The induction is on how many are allowed for, since the first
empty piece or failure may come in any of them. -/
theorem Reader.digest_avoids (hretryable : failure.retryable = true) {reader : Reader σ}
    (hquiet : reader.layers.Quiet failure start reader.state) (hspares : start.Spares failure shared) :
    Outcome.Avoids failure (reader.digest shared).1 := by
  -- The loop keeps both what the reader cannot report and what the trailers cannot say.
  have hgo (budget : Nat) (reader : Reader σ) (shared : Shared) (hash : Sha256)
      (hquiet : reader.layers.Quiet failure start reader.state) (hspares : start.Spares failure shared) :
      Outcome.Avoids failure (digest.go budget reader shared hash).1 := by
    induction budget generalizing reader shared hash with
    | zero => exact avoids_error (Failure.ne_of_retryable hretryable rfl)
    | succ budget ih =>
      have hread := Layers.pull_spares hretryable reader.layers 65536 reader.state shared
        ⟨hquiet, hspares⟩
      rw [digest.go, Reader.read]
      rcases hresult : reader.layers.pull 65536 reader.state shared with ⟨outcome, state', shared'⟩
      rw [hresult] at hread
      cases outcome with
      | error other => exact avoids_error hread
      | ok piece =>
        cases piece with
        | nil => exact avoids_ok _
        | cons b bytes => exact ih _ _ _ hread.1 hread.2
  exact hgo _ reader shared {} hquiet hspares

omit [ByteSource σ] in
/-- What keeps a body from being opened is no passing condition. Only a chunk size of zero does, which is a
fault of the configuration; the induction is on the body, as each layer hands on what the one below it fails
with. -/
theorem Body.openReader_avoids (hretryable : failure.retryable = true) (body : Body σ) (shared : Shared) :
    Outcome.Avoids failure (body.openReader shared).1 := by
  induction body generalizing shared with
  | empty => exact avoids_ok _
  | bytes content => exact avoids_ok _
  | stream id length replayable sources =>
    unfold openReader
    split
    · exact avoids_ok _
    · exact avoids_ok _
  | checksummed id inner trailer ih =>
    have hinner := ih (shared.countOpening id)
    unfold openReader
    split
    · exact avoids_ok _
    · dsimp only
      split
      · exact avoids_ok _
      · exact hinner
  | chunked id payload context ih =>
    have hpayload := ih (shared.countOpening id)
    unfold openReader
    split
    · exact avoids_ok _
    · dsimp only
      split
      next reader opened hopen =>
        unfold ChunkStream.start
        dsimp only
        split
        · exact avoids_error (Failure.ne_of_retryable hretryable rfl)
        · exact avoids_ok _
      · exact hpayload

/-- Each layer of a reader stems from a layer of the body, so a body that does not report the failure has
quiet readers only. -/
theorem Body.quiet_of_openReader {body : Body σ} {reader : Reader σ}
    (hbody : ¬ body.Reports failure start) {shared after : Shared}
    (hopen : body.openReader shared = (.ok (some reader), after)) :
    reader.layers.Quiet failure start reader.state := by
  induction body generalizing reader shared after with
  | empty =>
    obtain ⟨rfl, -⟩ := by simpa [openReader, consumed, replayable] using hopen
    trivial
  | bytes content =>
    obtain ⟨rfl, -⟩ := by simpa [openReader, consumed, replayable] using hopen
    trivial
  | stream id length replayable sources =>
    obtain ⟨-, source, hsource, rfl⟩ := exists_source_of_stream hopen
    exact fun hreports => hbody (.source hsource hreports)
  | checksummed id inner trailer ih =>
    obtain ⟨below, rfl, hinner⟩ := exists_reader_of_checksummed hopen
    have hquiet := ih (fun hreports => hbody (.checksummed hreports)) hinner
    exact hquiet
  | chunked id payload context ih =>
    obtain ⟨inside, encoding, hpayload, hstart, rfl⟩ := exists_reader_of_chunked hopen
    have hquiet := ih (fun hreports => hbody (.payload hreports)) hpayload
    -- A stream that was just started has the context of its body, and so its trailers.
    rw [ChunkStream.start_ok hstart]
    exact ⟨hquiet, fun trailer htrailer hsettled => hbody (.trailer htrailer hsettled)⟩

end

namespace Signer

variable {σ : Type} [ByteSource σ] {failure : Failure} {shared : Shared}

/-- To hash a stream is to open a reader and to read it to its end, and only the reading can fail so.
Opening settles no trailer, so what the trailers spare before they spare then. -/
theorem hashStream_avoids (hretryable : failure.retryable = true) {body : Body σ}
    (hbody : ¬ body.Reports failure shared) : Avoids failure (hashStream body shared).1 := by
  have hopened := body.openReader_avoids hretryable shared
  have htrailers := body.trailers_openReader shared
  unfold hashStream
  split
  · exact avoids_error (Failure.ne_of_retryable hretryable rfl)
  · split
    next other opened hopen =>
      rw [hopen] at hopened
      exact hopened.cast
    next => exact avoids_error (Failure.ne_of_retryable hretryable rfl)
    next reader opened hopen =>
      rw [hopen] at htrailers
      have hdigest := Reader.digest_avoids hretryable (body.quiet_of_openReader hbody hopen)
        (.of_trailers htrailers)
      split
      next other _ hfailed =>
        rw [hfailed] at hdigest
        exact hdigest.cast
      next => exact avoids_ok _

/-- **Hashing a payload is worth another attempt only if the caller's code says so.** A one-shot payload
is not read at all, and what a reading fails with is not replaced on its way through the layers. -/
theorem hashPayload_reports (hretryable : failure.retryable = true) {body : Body σ} {hash : PayloadHash}
    (hfailed : (hashPayload body hash shared).1 = .error failure) :
    body.replayable = true ∧ body.Reports failure shared := by
  have hstream : (hashStream body shared).1 = .error failure := by
    unfold hashPayload at hfailed
    split at hfailed
    · split at hfailed
      · contradiction
      · contradiction
      · exact hfailed
    · contradiction
  -- A one-shot body is refused before it is read, and that failure is none of these.
  constructor
  · by_contra hreplayable
    unfold hashStream at hstream
    rw [Bool.eq_false_iff.mpr hreplayable] at hstream
    exact avoids_error (Failure.ne_of_retryable hretryable rfl) hstream
  · by_contra hbody
    exact hashStream_avoids hretryable hbody hstream

end Signer

end SigV4
