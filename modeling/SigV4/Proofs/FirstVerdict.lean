import SigV4.Proofs.Verdicts

/-!
# The first verdict on a checksum

A client declares the checksum of a body, signs the request, signs it again for another attempt, and opens,
reads, cancels and closes any readers of what it has. The checksum settles once and for all attempts:

* **`Session.verdicts`**: the verdicts on the checksum in a run, in order.
* **`Session.Judging`**: the invariant. The trailer has the first of the verdicts so far, and a reader at the
  end has put forward the checksum of what it delivered. Every action keeps it (`Session.Judging.step`), so
  every run does (`Session.Judging.run`).
* **`Session.first_verdict_stays`**: a reader at the end of the payload finds its checksum just if this was
  the first verdict. After a failure every encoding stops behind its payload, also where the source has
  recovered or was opened anew.
* **`Session.failure_outlives_recovery`**: a run in which that happens.
-/

namespace SigV4

/-! ## Signing a request with trailers -/

namespace Signer

variable {σ : Type} [ByteSource σ] {clock : Clock} {config : Config} {identity : Identity}
  {request : Request σ} {shared after : Shared}

/-- **A request with trailers is signed without reading its body.** It fails and nothing has happened, or
its body is encoded in a stream that was not there before. So signing puts nothing forward for a checksum.
-/
theorem sign_of_trailers (htrailers : request.trailers ≠ []) :
    (∃ failure, sign clock config identity request shared = (.error failure, shared))
    ∨ ∃ signed context, sign clock config identity request shared = (.ok signed, shared.newStream.2)
      ∧ context.chunkSize ≠ 0 ∧ context.trailers = request.trailers
      ∧ signed.request.trailers = request.trailers
      ∧ signed.request.body = .chunked shared.newStream.1 (unwrapBody request).body context := by
  have hunwrapped : (unwrapBody request).trailers ≠ [] := by rwa [unwrapBody_trailers]
  rcases hsign : sign clock config identity request shared with ⟨outcome, after⟩
  cases outcome with
  | error failure =>
    -- The hash of such a body is a fixed text, so a failure has read nothing.
    have hafter : after = shared := by
      refine snd_sign_of_error (fun attempt hprepared => ?_) hsign
      rw [hashPayload_of_streaming (streaming_of_trailers hprepared.hash hunwrapped)]
    exact .inl ⟨failure, by rw [hafter]⟩
  | ok signed =>
    obtain ⟨hash, text, hashed, hresolve, hhash, hbody⟩ := sign_body hsign
    have hstreaming := streaming_of_trailers hresolve hunwrapped
    rw [hashPayload_of_streaming hstreaming] at hhash
    obtain ⟨-, rfl⟩ := Prod.mk.inj hhash
    rcases hbody with ⟨hplain, -⟩ | ⟨context, -, hsize, hcontext, hbody, rfl⟩
    · exact absurd hstreaming (Bool.eq_false_iff.mp hplain)
    · exact .inr ⟨signed, context, rfl, hsize, hcontext.trans (unwrapBody_trailers request),
        sign_trailers hsign, hbody⟩

end Signer

/-! ## What is sent -/

/-- Signing requests in hand, and opening, reading, cancelling and closing readers. -/
def Action.IsSending {σ : Type} : Action σ → Prop
  | .sign .. | .openReader _ | .read .. | .cancel _ | .close _ => True
  | _ => False

/-- The request has these trailers, and sends the body as it is or encoded. -/
structure Request.Sends {σ : Type} (payload : Body σ) (declared : List Trailer) (request : Request σ) :
    Prop where
  trailers : request.trailers = declared
  body : request.body = payload ∨ ∃ id context, request.body = .chunked id payload context
    ∧ context.chunkSize ≠ 0 ∧ context.trailers = declared

/-- The reading reads the body, and if its checksum is finished this is among the verdicts. -/
structure Reading.Counts {σ : Type} [ByteSource σ] (body : Body σ) (trailers : List Trailer)
    (verdicts : List (Outcome Bytes)) (reading : Reading σ) : Prop where
  reads : reading.reader.Reads body trailers
  finished : ∀ tally, reading.reader.tally? = some tally → tally.finished = true →
    .ok (Base64.encode tally.digest.finish) ∈ verdicts

/-- The reading is of an encoding that has come to its trailers, and those but the last have these values. -/
structure Reading.ComesToTrailers {σ : Type} (shared : Shared) (inner : Layers)
    (stream : ChunkStream (inner.State σ)) (others : List Trailer) (values : List (Bytes × Bytes))
    (reading : Reading σ) : Prop where
  reader : reading.reader = ⟨.chunked inner, stream⟩
  phase : stream.phase = .trailers
  others : Resolved shared others values

namespace Reading.Counts

variable {σ : Type} [ByteSource σ] {stream : StreamId} {below : Body σ} {others : List Trailer}
  {id : TrailerId} {verdicts : List (Outcome Bytes)} {reading : Reading σ} {shared : Shared}

/-- At the end the verdict was the checksum of what was delivered. The digest has taken in all of it, and a
finished digest was put forward. -/
theorem exists_payload (hfresh : id ∉ below.promises) {trailers : List Trailer}
    (h : reading.Counts (.checksummed stream below id) trailers verdicts) (hend : reading.reader.AtEnd) :
    ∃ payload, (Body.checksummed stream below id).HasDelivered reading.reader.source payload
      ∧ .ok (sha256Base64 payload) ∈ verdicts := by
  obtain ⟨payload, tally, hdelivered, htally, hdigest⟩ := h.reads.exists_payload hfresh
  obtain ⟨tally', htally', hfinished⟩ := hend
  obtain rfl := Option.some.inj (htally.symm.trans htally')
  have hmem := h.finished tally htally hfinished
  rw [hdigest] at hmem
  exact ⟨payload, hdelivered, hmem⟩

variable {body : Body σ} {inner : Layers} {s : ChunkStream (inner.State σ)}
  {values : List (Bytes × Bytes)} {name : Bytes}

/-- An encoding that has come to the trailers has read its payload to the end, so the checksum below it is
finished. -/
theorem exists_source {trailers : List Trailer} (h : reading.Counts body trailers verdicts)
    (hreader : reading.reader = ⟨.chunked inner, s⟩) (hphase : s.phase = .trailers) :
    ∃ (layers : Layers) (source : ChunkStream (Checksummed (layers.State σ))),
      (⟨.chunked inner, s⟩ : Reader σ) = ⟨.chunked (.checksummed layers), source⟩
        ∧ source.source.finished = true ∧ source.context.chunkSize ≠ 0
        ∧ source.context.trailers = trailers := by
  have hreads := h.reads
  rw [hreader] at hreads
  cases hreads with
  | @encoding layers source context payload _ hsums hsize htrailers =>
    obtain rfl := hsums.context
    exact ⟨layers, source, rfl, hsums.finished hphase, hsize, htrailers⟩

/-- With a failure such an encoding returns what is pending, and then the failure for ever. The trailers in
front of the checksum are there, so the checksum is the first that is bad. -/
theorem fails (h : reading.Counts body (others ++ [⟨name, id⟩]) verdicts)
    (hcomes : reading.ComesToTrailers shared inner s others values) {failure : Failure}
    (hvalue : shared.trailer? id = some (.error failure)) (n : Nat) :
    ∃ s' shared', reading.reader.read n shared
        = (Bytes.pieceBefore (.error failure) n s.pending, ⟨.chunked inner, s'⟩, shared')
      ∧ s'.phase = .trailers := by
  obtain ⟨layers, source, heq, hfinished, hsize, htrailers⟩ := h.exists_source hcomes.reader hcomes.phase
  cases heq
  have hbad : FirstBad shared failure source.context.trailers := by
    rw [htrailers]
    exact .of_resolved hcomes.others (.here (.failed hvalue))
  obtain ⟨s', shared', hpull, hphase⟩ := ChunkStream.pull_of_firstBad hsize hfinished hcomes.phase hbad n
  refine ⟨s', shared', ?_, hphase⟩
  rw [hcomes.reader]
  exact Reader.read_chunked hpull

/-- With a checksum such an encoding returns its trailers and is finished. The pending bytes come first, and
the reading that goes beyond them meets the trailers. -/
theorem closes (h : reading.Counts body (others ++ [⟨name, id⟩]) verdicts)
    (hcomes : reading.ComesToTrailers shared inner s others values) {checksum : Bytes}
    (hvalue : shared.trailer? id = some (.ok checksum)) (hplain : hasLineBreak checksum = false)
    (n : Nat) :
    ∃ s' shared', reading.reader.read n shared
        = (.ok ((s.pending
            ++ (s.context.trailerSegment s.previous (values ++ [(name, checksum)])).text).take n),
          ⟨.chunked inner, s'⟩, shared')
      ∧ (s.pending.length < n → s'.phase = .finished) := by
  obtain ⟨layers, source, heq, hfinished, hsize, htrailers⟩ := h.exists_source hcomes.reader hcomes.phase
  cases heq
  have hvalues : Resolved shared source.context.trailers (values ++ [(name, checksum)]) := by
    rw [htrailers]
    exact List.rel_append hcomes.others (.cons ⟨rfl, hvalue, hplain⟩ .nil)
  obtain ⟨s', shared', hpull, hphase⟩ :=
    ChunkStream.pull_of_resolved hsize hfinished hcomes.phase hvalues n
  refine ⟨s', shared', ?_, hphase⟩
  rw [hcomes.reader]
  exact Reader.read_chunked hpull

end Reading.Counts

/-! ## Sessions

Several readers may be open at once and take turns. A trailer that has a value keeps it, so only the
first verdict of all counts. -/

namespace Session

variable {σ : Type} [ByteSource σ]

/-- What an action puts forward for the checksum. -/
def verdict (session : Session σ) : Action σ → Option (Outcome Bytes)
  | .read place n => session.readings[place]?.bind fun reading =>
    reading.reader.verdict n session.shared
  | _ => none

/-- The verdicts in a run, in order. -/
def verdicts (session : Session σ) : List (Action σ) → List (Outcome Bytes)
  | [] => []
  | action :: actions => (session.verdict action).toList ++ (session.step action).verdicts actions

variable {session : Session σ} {stream : StreamId} {inner : Body σ} {trailers : List Trailer}
  {id : TrailerId} {past : List (Outcome Bytes)}

/-- A session that sends the body with this checksum, of which `past` are the verdicts so far. -/
structure Judging (body : Body σ) (trailers : List Trailer) (id : TrailerId)
    (past : List (Outcome Bytes)) (session : Session σ) : Prop where
  nonempty : session.requests ≠ []
  requests : ∀ request ∈ session.requests, request.Sends body trailers
  readings : ∀ reading ∈ session.readings, reading.Counts body trailers past
  known : id < session.shared.trailers.length
  value : session.shared.trailer? id = past.head?
  checksums : ∀ checksum, .ok checksum ∈ past → body.HasChecksum checksum

namespace Judging

variable {body : Body σ}

/-- Nothing has become of the checksum: an action that settles no trailer and puts forward nothing keeps the
invariant, if the requests and the readings are still of the body. -/
theorem congr (h : session.Judging body trailers id past) {later : Session σ}
    (hnonempty : later.requests ≠ [])
    (hrequests : ∀ request ∈ later.requests, request.Sends body trailers)
    (hreadings : ∀ reading ∈ later.readings, reading.Counts body trailers past)
    (hlength : later.shared.trailers.length = session.shared.trailers.length)
    (hvalue : later.shared.trailer? id = session.shared.trailer? id) :
    later.Judging body trailers id past :=
  ⟨hnonempty, hrequests, hreadings, hlength ▸ h.known, hvalue.trans h.value, h.checksums⟩

/-- Signing holds one more request, which sends the body in a new encoding. It reads nothing, as the request
has trailers. -/
theorem sign (h : session.Judging body trailers id past) (htrailers : trailers ≠ [])
    (hpayload : body.payload? = none) (held : Nat) (clock : Clock) (config : Config)
    (identity : Identity) :
    (session.step (.sign held clock config identity)).Judging body trailers id past := by
  refine Session.elim_keeps (P := (·.Judging body trailers id past)) h fun request hheld => ?_
  have hsends := h.requests request (List.mem_of_getElem? hheld)
  rcases Signer.sign_of_trailers (hsends.trailers ▸ htrailers) with
    ⟨failure, hsign⟩ | ⟨signed, context, hsign, hsize, hcontext, hkept, hbody⟩
  · rw [hsign]
    exact h
  · rw [hsign]
    -- A request that is an encoding already is signed as what it encodes.
    have hunwrapped : (Signer.unwrapBody request).body = body := by
      rw [Signer.unwrapBody_body]
      rcases hsends.body with hplain | ⟨other, encoding, hencoded, -⟩
      · rw [hplain, hpayload]
        rfl
      · rw [hencoded]
        rfl
    refine h.congr (by simp [hold]) (fun other hother => ?_) h.readings rfl rfl
    rcases List.mem_append.mp hother with hother | hother
    · exact h.requests other hother
    · rw [List.mem_singleton.mp hother]
      rw [hunwrapped] at hbody
      exact ⟨hkept.trans hsends.trailers,
        .inr ⟨_, context, hbody, hsize, hcontext.trans hsends.trailers⟩⟩

/-- A reader that was just opened has put forward nothing, whether it reads the body as it is or encoded. -/
theorem counts_of_openReader {request : Request σ} {shared opened : Shared} {reader : Reader σ}
    (h : request.Sends (.checksummed stream inner id) trailers)
    (hopen : request.body.openReader shared = (.ok (some reader), opened)) :
    Reading.Counts (.checksummed stream inner id) trailers past { reader } := by
  rcases h.body with hplain | ⟨other, context, hencoded, hsize, hcontext⟩
  · rw [hplain] at hopen
    obtain ⟨below, rfl, -⟩ := Body.exists_reader_of_checksummed hopen
    refine ⟨.direct (.opened hopen), fun tally htally hfinished => ?_⟩
    obtain rfl := Option.some.inj htally
    exact absurd hfinished (by simp [Checksummed.tally])
  · rw [hencoded] at hopen
    obtain ⟨reader, encoding, hreader, hstart, rfl⟩ := Body.exists_reader_of_chunked hopen
    obtain ⟨below, rfl, -⟩ := Body.exists_reader_of_checksummed hreader
    obtain rfl := ChunkStream.start_ok hstart
    refine ⟨.encoding (.opened hreader) ⟨rfl, fun hphase => absurd hphase (by simp)⟩ hsize hcontext,
      fun tally htally hfinished => ?_⟩
    obtain rfl := Option.some.inj htally
    exact absurd hfinished (by simp [Checksummed.tally])

/-- Opening a reader settles nothing and adds a reading that has put forward nothing. -/
theorem openReader (h : session.Judging (.checksummed stream inner id) trailers id past) (held : Nat) :
    (session.step (.openReader held)).Judging (.checksummed stream inner id) trailers id past := by
  refine Session.elim_keeps (P := (·.Judging (.checksummed stream inner id) trailers id past)) h
    fun request hheld => ?_
  have hsends := h.requests request (List.mem_of_getElem? hheld)
  have hsame := request.body.trailers_openReader session.shared
  refine h.congr h.nonempty h.requests (fun reading hreading => ?_) (congrArg List.length hsame) ?_
  · -- A reading that was there stays as it was, and a new one has put forward nothing.
    rcases List.mem_append.mp hreading with hreading | hreading
    · exact h.readings reading hreading
    · obtain ⟨reader, hopened, rfl⟩ := mem_started.mp hreading
      have hopen : request.body.openReader session.shared
          = (.ok (some reader), (request.body.openReader session.shared).2) := by rw [← hopened]
      exact counts_of_openReader hsends hopen
  · rw [Shared.trailer?, hsame]
    rfl

/-- Cancelling a reader leaves its digest as it is, so what it has put forward stays among the verdicts. -/
theorem cancel (h : session.Judging body trailers id past) (place : Nat) :
    (session.step (.cancel place)).Judging body trailers id past := by
  refine Session.elim_keeps (P := (·.Judging body trailers id past)) h fun reading hplace => ?_
  have hcounts := h.readings reading (List.mem_of_getElem? hplace)
  refine Session.elim_keeps (P := (·.Judging body trailers id past)) h fun reader hcancel => ?_
  obtain ⟨hreads, htally⟩ := hcounts.reads.cancel hcancel
  refine h.congr h.nonempty h.requests (fun other hother => ?_) rfl rfl
  rcases List.mem_or_eq_of_mem_set hother with hbefore | rfl
  · exact h.readings other hbefore
  · exact ⟨hreads, fun tally hlater => hcounts.finished tally (htally ▸ hlater)⟩

/-- Closing a reader keeps the promises of the requests. As there is still a request that sends the body,
the trailer is not given up. -/
theorem close (h : session.Judging (.checksummed stream inner id) trailers id past) (place : Nat) :
    (session.step (.close place)).Judging (.checksummed stream inner id) trailers id past := by
  have hkept : id ∈ Holdings.promises ⟨session.requests,
      (session.readings.eraseIdx place).map (·.reader)⟩ := by
    obtain ⟨request, hrequest⟩ := List.exists_mem_of_ne_nil _ h.nonempty
    refine List.mem_append_left _ (List.mem_flatMap.mpr ⟨request, hrequest, ?_⟩)
    rcases (h.requests request hrequest).body with hplain | ⟨other, context, hencoded, -⟩
    · rw [hplain]
      exact List.mem_cons_self
    · rw [hencoded]
      exact List.mem_cons_self
  refine h.congr h.nonempty h.requests (fun reading hreading => ?_) (Shared.length_giveUp _ _)
    (Shared.trailer?_giveUp_of_mem hkept)
  exact h.readings reading (List.mem_of_mem_eraseIdx hreading)

/-- **One reading** adds its verdict to those before, if it has one. Only the first of all is taken by the
trailer. -/
theorem read (hfresh : id ∉ inner.promises)
    (h : session.Judging (.checksummed stream inner id) trailers id past) (place n : Nat) :
    (session.step (.read place n)).Judging (.checksummed stream inner id) trailers id
      (past ++ (session.verdict (.read place n)).toList) := by
  cases hplace : session.readings[place]? with
  | none => simpa [Session.step, Session.verdict, hplace] using h
  | some reading =>
    have hcounts := h.readings reading (List.mem_of_getElem? hplace)
    have hadvances := hcounts.reads.advances hfresh h.known n
    have hverdict : session.verdict (.read place n) = reading.reader.verdict n session.shared := by
      simp [Session.verdict, hplace]
    rw [hverdict]
    simp only [Session.step, hplace, Option.elim_some]
    refine ⟨h.nonempty, h.requests, fun other hother => ?_, hadvances.known, ?_,
      fun checksum hchecksum => ?_⟩
    · rcases List.mem_or_eq_of_mem_set hother with hbefore | rfl
      · have hother := h.readings other hbefore
        exact ⟨hother.reads, fun tally htally hfinished =>
          List.mem_append_left _ (hother.finished tally htally hfinished)⟩
      · refine ⟨hadvances.reads, fun tally htally hfinished => ?_⟩
        rcases hadvances.finished tally htally hfinished with hbefore | hnow
        · exact List.mem_append_left _ (hcounts.finished tally hbefore hfinished)
        · rw [hnow]
          exact List.mem_append_right _ List.mem_cons_self
    · -- The trailer has a value already, or takes the one that was put forward.
      show _ = (past ++ (reading.reader.verdict n session.shared).toList).head?
      rw [List.head?_append, ← h.value]
      exact hadvances.value.trans (by cases reading.reader.verdict n session.shared <;> rfl)
    · rcases List.mem_append.mp hchecksum with hbefore | hnow
      · exact h.checksums checksum hbefore
      · exact hadvances.reads.hasChecksum hfresh (Option.mem_toList.mp hnow)

/-- **Every such action** adds its verdict, if it has one. There is one case for each action; the others are
none of those that are sent. -/
theorem step (hfresh : id ∉ inner.promises) (htrailers : trailers ≠ []) (action : Action σ)
    (haction : action.IsSending) (h : session.Judging (.checksummed stream inner id) trailers id past) :
    (session.step action).Judging (.checksummed stream inner id) trailers id
      (past ++ (session.verdict action).toList) := by
  -- Only readings put forward verdicts.
  have hsilent {later : Session σ} (h : later.Judging (.checksummed stream inner id) trailers id past) :
      later.Judging (.checksummed stream inner id) trailers id (past ++ []) := by
    rwa [List.append_nil]
  cases action with
  | read place n => exact h.read hfresh place n
  | sign held clock config identity => exact hsilent (h.sign htrailers rfl held clock config identity)
  | openReader held => exact hsilent (h.openReader held)
  | cancel place => exact hsilent (h.cancel place)
  | close place => exact hsilent (h.close place)
  | assemble | takePayload | declareSha256 | discard => exact haction.elim

/-- **Every run.** The induction is on the actions, for any verdicts before them, as the first verdict may
have been put forward before the run and then no later one counts. -/
theorem run (hfresh : id ∉ inner.promises) (htrailers : trailers ≠ []) (actions : List (Action σ))
    (hactions : ∀ action ∈ actions, action.IsSending)
    (h : session.Judging (.checksummed stream inner id) trailers id past) :
    (session.run actions).Judging (.checksummed stream inner id) trailers id
      (past ++ session.verdicts actions) := by
  induction actions generalizing session past with
  | nil =>
    rw [verdicts, List.append_nil]
    exact h
  | cons action actions ih =>
    have hnext := h.step hfresh htrailers action (hactions action List.mem_cons_self)
    rw [verdicts, ← List.append_assoc]
    exact ih (fun other hother => hactions other (List.mem_cons_of_mem action hother)) hnext

end Judging

/-! ## The first verdict -/

/-- A client that declared the checksum of the body of a request. -/
def declaring (request : Request σ) (shared : Shared) : Session σ where
  requests := [(request.withSha256Trailer shared).1]
  shared := (request.withSha256Trailer shared).2

omit [ByteSource σ] in
/-- The declared trailer is one of those that readers share. -/
theorem declaring_known {request : Request σ} {shared : Shared} :
    shared.trailers.length < (declaring request shared).shared.trailers.length := by
  simp [declaring, Request.withSha256Trailer, Shared.newTrailer, Shared.newStream]

omit [ByteSource σ] in
/-- At first it has no value. -/
theorem declaring_waits {request : Request σ} {shared : Shared} :
    (declaring request shared).shared.trailer? shared.trailers.length = none := by
  simp [declaring, Request.withSha256Trailer, Shared.newTrailer, Shared.newStream, Shared.trailer?,
    TrailerState.value?]

/-- What has become of the checksum `id` of a body, and of its readers, when these were the verdicts. The
request has the trailers `others` besides. -/
structure FirstWins (body : Body σ) (others : List Trailer) (id : TrailerId)
    (verdicts : List (Outcome Bytes)) (session : Session σ) : Prop where
  /-- The trailer has the verdict that was first, and waits until there is one. -/
  value : session.shared.trailer? id = verdicts.head?
  /-- A checksum among the verdicts is that of a payload which some reader delivered to its end. -/
  checksums : ∀ checksum, .ok checksum ∈ verdicts → body.HasChecksum checksum
  /-- Every reader at the end has put forward the checksum of what it delivered. -/
  atEnd : ∀ reading ∈ session.readings, reading.reader.AtEnd → ∃ payload,
    body.HasDelivered reading.reader.source payload ∧ .ok (sha256Base64 payload) ∈ verdicts
  /-- After a failure no encoding gets past its payload, whoever computed the checksum since. -/
  fails : ∀ failure, verdicts.head? = some (.error failure) → ∀ reading ∈ session.readings,
    ∀ inner stream values, reading.ComesToTrailers session.shared inner stream others values → ∀ n,
      ∃ stream' shared', reading.reader.read n session.shared
          = (Bytes.pieceBefore (.error failure) n stream.pending, ⟨.chunked inner, stream'⟩, shared')
        ∧ stream'.phase = .trailers
  /-- After a checksum every encoding closes with it. -/
  closes : ∀ checksum, verdicts.head? = some (.ok checksum) → ∀ reading ∈ session.readings,
    ∀ inner stream values, reading.ComesToTrailers session.shared inner stream others values → ∀ n,
      ∃ stream' shared', reading.reader.read n session.shared
          = (.ok ((stream.pending ++ (stream.context.trailerSegment stream.previous
              (values ++ [(Request.sha256TrailerName, checksum)])).text).take n),
            ⟨.chunked inner, stream'⟩, shared')
        ∧ (stream.pending.length < n → stream'.phase = .finished)

/-- **The first verdict stays.** Whatever attempts, readers and failures there are, a reader that comes to
the end of the payload finds the checksum of what it delivered just if no other verdict was before it. The
body may have any promises of its own, as long as the new trailer is none of them. -/
theorem first_verdict_stays {request : Request σ} {shared : Shared}
    (hknown : ∀ id ∈ request.body.promises, id < shared.trailers.length) {actions : List (Action σ)}
    (hactions : ∀ action ∈ actions, action.IsSending) :
    FirstWins (request.withSha256Trailer shared).1.body request.trailers shared.trailers.length
      ((declaring request shared).verdicts actions) ((declaring request shared).run actions) := by
  have hfresh : shared.trailers.length ∉ request.body.promises :=
    fun hmem => Nat.lt_irrefl _ (hknown _ hmem)
  let declared : Trailer := ⟨Request.sha256TrailerName, shared.trailers.length⟩
  -- At first there is one request, which is the one that declares the checksum, and no reading.
  have hstart : (declaring request shared).Judging (request.withSha256Trailer shared).1.body
      (request.trailers ++ [declared]) shared.trailers.length [] := by
    refine ⟨List.cons_ne_nil _ _, fun other hother => ?_, fun _ h => absurd h List.not_mem_nil,
      declaring_known, declaring_waits, fun _ h => absurd h List.not_mem_nil⟩
    rw [List.mem_singleton.mp hother]
    exact ⟨rfl, .inl rfl⟩
  have hrun := hstart.run hfresh (by simp) actions hactions
  rw [List.nil_append] at hrun
  refine ⟨hrun.value, hrun.checksums, fun reading hreading hend => ?_,
    fun failure hfirst reading hreading inner stream values h n => ?_,
    fun checksum hfirst reading hreading inner stream values h n => ?_⟩
  · exact (hrun.readings reading hreading).exists_payload hfresh hend
  · exact (hrun.readings reading hreading).fails h (hrun.value.trans hfirst) n
  · obtain ⟨_, payload, -, -, rfl⟩ := hrun.checksums checksum (List.mem_of_mem_head? hfirst)
    have hplain := (sha256Base64_plain payload).2
    exact (hrun.readings reading hreading).closes h (hrun.value.trans hfirst) hplain n

/-- A source that returns these outcomes one after the other, and then is at its end. -/
structure Script where
  outcomes : List (Outcome Bytes)

instance : ByteSource Script where
  read _ script :=
    match script.outcomes with
    | [] => (.ok [], script)
    | outcome :: outcomes => (outcome, ⟨outcomes⟩)

def sourceFailed : Failure := .reported (ascii "source failed")

/-- A request with a body that fails on the first reading and then recovers. -/
def falteringRequest : Request Script where
  path := ascii "/"
  headers := Fields.ofList .caseInsensitive [(ascii "Host", ascii "example.com")]
  body := .stream 0 (some 3) true fun _ => some ⟨[.error sourceFailed, .ok (ascii "abc")]⟩

def falteringShared : Shared := { openings := [0] }

def faltering : Session Script := declaring falteringRequest falteringShared

/-- One reader of the body is read to its end. -/
def recovering : List (Action Script) := [.openReader 0, .read 0 100, .read 0 100, .read 0 100]

/-- The same of an encoding. -/
def recoveringEncoded : List (Action Script) :=
  [.sign 0 ⟨⟨0⟩, none⟩ sampleConfig (.credentials Signer.sampleCredentials), .openReader 1, .read 0 1000,
    .read 0 1000, .read 0 1000]

/-- The source fails once, and the reader of an encoding puts forward the failure and then the checksum. -/
theorem first_verdict_stays_of_recovered_source :
    (∀ id ∈ falteringRequest.body.promises, id < falteringShared.trailers.length)
    ∧ (∀ action ∈ recoveringEncoded, action.IsSending)
    ∧ (faltering.verdicts recoveringEncoded).map (·.toOption)
      = [none, some (sha256Base64 (ascii "abc"))]
    ∧ FirstWins (.checksummed 1 falteringRequest.body 0) [] 0 (faltering.verdicts recoveringEncoded)
      (faltering.run recoveringEncoded) := by
  have hknown : ∀ id ∈ falteringRequest.body.promises, id < falteringShared.trailers.length :=
    fun _ h => absurd h List.not_mem_nil
  have hactions : ∀ action ∈ recoveringEncoded, action.IsSending := by
    intro action haction
    simp only [recoveringEncoded, List.mem_cons, List.not_mem_nil, or_false] at haction
    rcases haction with rfl | rfl | rfl | rfl | rfl <;> trivial
  refine ⟨hknown, hactions, by decide +kernel, ?_⟩
  exact first_verdict_stays hknown hactions

/-- The reader has recovered and delivers the whole payload, and what it finds is the failure. The encoding
has computed the checksum of all that it read, and fails with the failure behind the payload. -/
theorem failure_outlives_recovery :
    (faltering.run recovering).readings.map (·.outcomes)
      = [[.error sourceFailed, .ok (ascii "abc"), .ok []]]
    ∧ (faltering.run recovering).shared.trailer? 0 = some (.error sourceFailed)
    ∧ (faltering.run recoveringEncoded).readings.map (fun reading =>
        reading.reader.tally?.map fun tally => (tally.finished, Base64.encode tally.digest.finish))
      = [some (true, sha256Base64 (ascii "abc"))]
    ∧ (faltering.run recoveringEncoded).readings.map (fun reading =>
        reading.outcomes.map fun outcome => outcome.failure?.map (·.message))
      = [List.replicate 3 (some (ascii "source failed"))] := by
  refine ⟨rfl, rfl, ?_, ?_⟩
  · decide +kernel
  · decide +kernel

end Session

end SigV4
