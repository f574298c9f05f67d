import SigV4.Proofs.Checksums
import SigV4.Proofs.ChunkRoundTrip
import SigV4.Proofs.LineBreaks
import SigV4.Proofs.OneShot
import SigV4.Proofs.Resigning
import SigV4.Proofs.SentTrailers
import SigV4.Proofs.SignedHeaders

/-!
# Declared checksums

A client declares the checksum of a body, any number of times, and signs the request. The checksums are
computed by the readers of the signed body while they read, and are sent behind the payload:

* **`ChunkContext.closing_checksums`**: behind the payload there is one line for each declaration.
* **`Request.Declares`**: what declaring makes of a request, by induction on the declarations.
* **`Session.Serving`**: the invariant. Every reader stands at some place of one encoding, and if it is
  past the payload it finds the checksums settled. Opening, reading and closing keep it
  (`Session.Serving.step`).
* **`Session.declared_checksums_arrive`**: so no reading waits for a checksum, whatever readers there are
  and however their readings alternate, and all of them deliver the same.
-/

namespace SigV4

/-! ## The lines behind the payload -/

namespace Chunked

/-- Trailers of one name and value are in order, however many there are: sorting permutes them, and a
permutation of equals is the same list. -/
theorem canonicalTrailers_replicate {name value : Bytes} (hname : toLower name = name)
    (hvalue : collapseBlanks value = value) (n : Nat) :
    canonicalTrailers (List.replicate n (name, value))
      = (List.replicate n (name ++ ascii ":" ++ value ++ ascii "\n")).flatten := by
  have hsorted : Ordered.sort Bytes.pairBefore (List.replicate n (name, value))
      = List.replicate n (name, value) := List.perm_replicate.mp (Ordered.sort_perm _ _)
  simp only [canonicalTrailers, List.map_replicate, hname, hvalue, hsorted, List.flatMap_replicate]

end Chunked

/-- A checksum is sent as it is. It has no blanks to collapse and no line breaks to be refused, since Base64
has its own alphabet. -/
theorem sha256Base64_plain (payload : Bytes) :
    collapseBlanks (sha256Base64 payload) = sha256Base64 payload
      ∧ hasLineBreak (sha256Base64 payload) = false := by
  refine ⟨collapseBlanks_eq_self fun b hb => (Base64.plain_of_mem_encode hb).1, ?_⟩
  rw [hasLineBreak_eq_false_iff]
  exact ⟨fun hmem => (Base64.plain_of_mem_encode hmem).2.1 rfl,
    fun hmem => (Base64.plain_of_mem_encode hmem).2.2 rfl⟩

/-- The values of `n` declared checksums. -/
def checksums (n : Nat) (payload : Bytes) : List (Bytes × Bytes) :=
  List.replicate n (Request.sha256TrailerName, sha256Base64 payload)

/-- The line of a declared checksum. -/
def checksumLine (payload : Bytes) : Bytes :=
  Request.sha256TrailerName ++ ascii ":" ++ sha256Base64 payload ++ crlf

/-- Each declaration becomes a line of its own on the wire, with CRLF in place of the line feed. The
induction is on the number of declarations. -/
theorem Chunked.wireLines_checksums (n : Nat) (payload : Bytes) :
    wireLines (canonicalTrailers (checksums n payload))
      = (List.replicate n (checksumLine payload)).flatten := by
  obtain ⟨hblanks, hbreaks⟩ := sha256Base64_plain payload
  have hline : 10 ∉ Request.sha256TrailerName ++ ascii ":" ++ sha256Base64 payload := by
    have hname : 10 ∉ Request.sha256TrailerName ++ ascii ":" := by decide
    exact List.not_mem_append hname (hasLineBreak_eq_false_iff.mp hbreaks).2
  rw [checksums, canonicalTrailers_replicate (by decide) hblanks]
  induction n with
  | zero => exact wireLines_nil
  | succ n ih =>
    have hstep := wireLines_line hline
      (List.replicate n (Request.sha256TrailerName ++ ascii ":" ++ sha256Base64 payload ++ ascii "\n")).flatten
    rw [ih] at hstep
    rw [List.replicate_succ, List.flatten_cons, List.append_assoc _ (ascii "\n")]
    exact hstep

namespace ChunkContext

/-- What is sent behind a payload with `n` declared checksums: a line for each, a signature over them
where chunks are signed, and an empty line. -/
def checksumBlock (c : ChunkContext) (n : Nat) (payload last : Bytes) : Bytes :=
  (List.replicate n (checksumLine payload)).flatten
    ++ (match c.signTrailers last (Chunked.canonicalTrailers (checksums n payload)) with
      | some signature => Chunked.trailerSignatureMark ++ signature ++ crlf
      | none => [])
    ++ crlf

/-- Behind the payload there is one line for each declaration, then the signature if chunks are signed, and
the empty line. -/
theorem closing_checksums {c : ChunkContext} (htrailers : c.trailers ≠ []) (n : Nat)
    (payload last : Bytes) : c.closing (checksums n payload) last = c.checksumBlock n payload last := by
  have hempty : c.trailers.isEmpty = false := by simpa using htrailers
  rw [closing, hempty, if_neg Bool.false_ne_true, checksumBlock, ← Chunked.wireLines_checksums]
  rfl

end ChunkContext

/-- The trailer is a checksum, and it is one of these. -/
def Trailer.IsChecksum (ids : List TrailerId) (trailer : Trailer) : Prop :=
  trailer.name = Request.sha256TrailerName ∧ trailer.value ∈ ids

/-- Checksums that are settled can be sent: each trailer has its name and a value without line breaks. The
induction is on the trailers. -/
theorem Shared.Computed.resolved {shared : Shared} {payload : Bytes} {ids : List TrailerId}
    (h : shared.Computed payload ids) {trailers : List Trailer}
    (htrailers : ∀ trailer ∈ trailers, trailer.IsChecksum ids) :
    Resolved shared trailers (checksums trailers.length payload) := by
  induction trailers with
  | nil => exact .nil
  | cons trailer trailers ih =>
    obtain ⟨hname, hid⟩ := htrailers trailer List.mem_cons_self
    refine .cons ⟨hname.symm, h trailer.value hid, (sha256Base64_plain payload).2⟩ (ih ?_)
    exact fun other hother => htrailers other (List.mem_cons_of_mem trailer hother)

/-! ## Declaring -/

namespace Request

variable {σ : Type}

/-- Declares the checksum of the body `n` times. -/
def withSha256Trailers (request : Request σ) (shared : Shared) : Nat → Request σ × Shared
  | 0 => (request, shared)
  | n + 1 =>
    let (request, shared) := request.withSha256Trailers shared n
    request.withSha256Trailer shared

variable [ByteSource σ] {request : Request σ} {payload : Bytes} {n : Nat} {shared : Shared}

/-- `n` checksums of this payload are declared, and no reader has settled one yet. -/
structure Declares (payload : Bytes) (n : Nat) (request : Request σ) (shared : Shared) : Prop where
  offers : request.body.Offers payload
  length : request.trailers.length = n
  trailers : ∀ trailer ∈ request.trailers, trailer.IsChecksum request.body.promises
  waiting : ∀ id ∈ request.body.promises, shared.trailers[id]? = some .computedByReaders

/-- **Declaring once more**: there is one more trailer, the body promises it, and nobody has settled it.
What was declared before keeps its place in what readers share, because the new trailer is put behind it. -/
theorem Declares.withSha256Trailer (h : request.Declares payload n shared) :
    (request.withSha256Trailer shared).1.Declares payload (n + 1)
      (request.withSha256Trailer shared).2 := by
  refine ⟨h.offers, ?_, ?_, ?_⟩
  · show (request.trailers ++ [_]).length = n + 1
    rw [List.length_append, h.length]
    rfl
  · intro trailer htrailer
    -- The new promise stands in front of those of the body before.
    rcases List.mem_append.mp htrailer with htrailer | htrailer
    · exact ⟨(h.trailers trailer htrailer).1, List.mem_cons_of_mem _ (h.trailers trailer htrailer).2⟩
    · rw [List.mem_singleton.mp htrailer]
      exact ⟨rfl, List.mem_cons_self⟩
  · intro id hid
    show (shared.trailers ++ [TrailerState.computedByReaders])[id]? = _
    rcases List.mem_cons.mp hid with rfl | hid
    · exact List.getElem?_concat_length
    · have hwaiting := h.waiting id hid
      rw [List.getElem?_append_left (List.getElem?_eq_some_iff.mp hwaiting).1]
      exact hwaiting

/-- However often a checksum is declared, that many trailers are promised. The induction is on the
declarations. -/
theorem declares_withSha256Trailers (hoffers : request.body.Offers payload)
    (hpromises : request.body.promises = []) (htrailers : request.trailers = []) (shared : Shared)
    (n : Nat) : (request.withSha256Trailers shared n).1.Declares payload n
      (request.withSha256Trailers shared n).2 := by
  induction n with
  | zero =>
    -- At the start there is no trailer and no promise.
    have hnone (id : TrailerId) : id ∉ request.body.promises := by simp [hpromises]
    refine ⟨hoffers, ?_, fun trailer htrailer => ?_, fun id hid => absurd hid (hnone id)⟩
    · exact List.length_eq_zero_iff.mpr htrailers
    · exact absurd htrailer (by simp [withSha256Trailers, htrailers])
  | succ n ih => exact ih.withSha256Trailer

/-- The request sends this payload encoded, with checksums of it as trailers. -/
structure SendsChecksums (c : ChunkContext) (payload : Bytes) (request : Request σ) : Prop where
  body : ∃ id body, request.body = .chunked id body c ∧ body.Offers payload
  chunkSize : c.chunkSize ≠ 0
  trailers : ∀ trailer ∈ c.trailers, trailer.IsChecksum request.body.promises

end Request

/-! ## Signing -/

namespace Signer

variable {σ : Type} {clock : Clock} {config : Config} {identity : Identity} {request : Request σ}
  {shared after : Shared} {payload : Bytes} {n : Nat}

/-- A body with trailers is sent aws-chunked. This holds for a prescribed hash too, as signing refuses one
that cannot be sent with trailers. -/
theorem streaming_of_trailers {hash : PayloadHash} (h : resolveHash request config = .ok hash)
    (htrailers : request.trailers ≠ []) : hash.streaming = true := by
  have hempty : request.trailers.isEmpty = false := by simpa using htrailers
  rw [resolveHash, hempty] at h
  split at h
  -- A prescribed hash has to be one of those that are signed with trailers.
  next prescribed _ =>
    split at h
    next => exact absurd h (by simp)
    next hsends =>
      obtain rfl := Except.ok.inj h
      cases prescribed with
      | mk kind text => cases kind <;> simp_all [PayloadHash.sendsTrailers, PayloadHash.streaming]
  next =>
    obtain rfl := Except.ok.inj h
    cases config.unsignedPayload with
    | true => rfl
    | false => rfl

/-- The signed request sends the payload encoded, with all the declared trailers, and they are still waiting
for their readers. Signing opens no reader here: the hash of a streaming payload does not depend on its
bytes. -/
theorem sign_declares [ByteSource σ] {signed : SignedRequest σ} (h : request.Declares payload n shared)
    (hn : n ≠ 0) (hsign : sign clock config identity request shared = (.ok signed, after)) :
    ∃ id c, signed.request.body = .chunked id request.body c ∧ c.trailers.length = n
      ∧ signed.request.SendsChecksums c payload
      ∧ after.Expects payload signed.request.body.promises := by
  obtain ⟨hash, text, hashed, hresolve, hhash, hbody⟩ := sign_body hsign
  rw [unwrapBody_of_payload_eq_none (Body.payload?_of_offers h.offers)] at hresolve hhash hbody
  have htrailers : request.trailers ≠ [] := by
    intro hnil
    apply hn
    rw [← h.length, hnil]
    rfl
  have hstreaming := streaming_of_trailers hresolve htrailers
  rw [hashPayload_of_streaming hstreaming] at hhash
  obtain ⟨-, rfl⟩ := Prod.mk.inj hhash
  -- The trailers rule out that the body is sent as it is.
  rcases hbody with ⟨hplain, -⟩ | ⟨c, -, hsize, hsent, hbody, rfl⟩
  · exact absurd hstreaming (Bool.eq_false_iff.mp hplain)
  · have hpromises : signed.request.body.promises = request.body.promises := by
      rw [hbody]
      rfl
    refine ⟨_, c, hbody, ?_, ⟨⟨_, _, hbody, h.offers⟩, hsize, ?_⟩, fun id hid => .inl ?_⟩
    · rw [hsent, h.length]
    · rw [hsent, hpromises]
      exact h.trailers
    · exact h.waiting id (hpromises ▸ hid)

end Signer

/-! ## Readers side by side -/

/-- What a reading of an encoding has met with: its text, and the checksums of the payload in time. -/
structure Reading.Arrived {σ : Type} (c : ChunkContext) (payload text : Bytes) (shared : Shared)
    (reading : Reading σ) : Prop where
  /-- Each time it was returned the next bytes of the text, as many as it asked for if there are so
  many. It never failed and never found a checksum missing. -/
  outcomes : reading.outcomes = (Bytes.pieces reading.lengths text).map .ok
  /-- Once its stream is past the chunks, the checksums are there. -/
  inTime : ∃ phase previous, reading.reader.progress? = some (phase, previous)
    ∧ (phase ≠ .chunks → ∀ trailer ∈ c.trailers,
      shared.trailer? trailer.value = some (.ok (sha256Base64 payload)))

section

variable {σ : Type} [ByteSource σ] {c : ChunkContext} {payload : Bytes} {ids : List TrailerId}
  {shared later : Shared}

/-- The reading has delivered the front of the one encoding of the payload. -/
def Reading.Follows (c : ChunkContext) (payload : Bytes) (ids : List TrailerId) (shared : Shared)
    (reading : Reading σ) : Prop :=
  ∃ (inner : Layers) (stream : ChunkStream (inner.State σ)),
    reading.reader = ⟨.chunked inner, stream⟩
    ∧ stream.Reached inner.pull c (checksums c.trailers.length payload)
      (c.segments (checksums c.trailers.length payload) payload) reading.lengths.sum
    ∧ stream.InTime (inner.Computes payload ids) (checksums c.trailers.length payload) shared
    ∧ reading.outcomes
      = (Bytes.pieces reading.lengths (c.encode (checksums c.trailers.length payload) payload)).map .ok

namespace Reading.Follows

variable {reading : Reading σ}

/-- What others do does not change what a reader has delivered and is to deliver. Others can only settle
trailers, and they settle them as expected. -/
theorem mono (h : reading.Follows c payload ids shared) (hlater : shared.SettledIn later)
    (hexpects : later.Expects payload ids) : reading.Follows c payload ids later := by
  obtain ⟨inner, stream, hreader, hreached, hready, houtcomes⟩ := h
  -- The reader itself is not touched, only what it shares with the others.
  refine ⟨inner, stream, hreader, hreached, ⟨?_, fun hphase => ?_⟩, houtcomes⟩
  · exact hready.source.mono hlater hexpects
  · exact (hready.ready hphase).mono hlater

/-- **One reading of one reader.** It returns the next bytes of the encoding, as many as were asked for if
there are so many, and the trailers are settled when it gets to them. The other readers lose nothing, as
settled trailers stay settled. -/
theorem read (h : reading.Follows c payload ids shared) (hsize : c.chunkSize ≠ 0)
    (htrailers : ∀ trailer ∈ c.trailers, trailer.IsChecksum ids) (n : Nat) :
    ∃ outcome reader shared', reading.reader.read n shared = (outcome, reader, shared')
      ∧ Follows c payload ids shared'
        ⟨reader, reading.lengths ++ [n], reading.outcomes ++ [outcome]⟩
      ∧ shared.SettledIn shared' ∧ shared'.Expects payload ids := by
  obtain ⟨inner, stream, hreader, hreached, hready, houtcomes⟩ := h
  -- The trailers of the encoding are settled when its source is at its end.
  have hlead : LeadsTo (inner.pull (σ := σ)) (inner.Computes payload ids) fun shared =>
      Resolved shared c.trailers (checksums c.trailers.length payload) := by
    intro n source shared piece source' shared' hn hcomputes hpull
    obtain ⟨hcomputes', hcomputed⟩ := Layers.Computes.leadsTo inner payload ids hn hcomputes hpull
    exact ⟨hcomputes', fun hnil => (hcomputed hnil).resolved htrailers⟩
  obtain ⟨stream', shared', hpull, hreached', hready', hsettled⟩ :=
    hreached.pull_inTime hlead hsize hready n
  have hread : reading.reader.read n shared
      = (.ok (((c.encode (checksums c.trailers.length payload) payload).drop reading.lengths.sum).take n),
        ⟨.chunked inner, stream'⟩, shared') := by
    rw [hreader]
    show ((ChunkStream.pull inner.pull n stream shared).1,
      (⟨.chunked inner, (ChunkStream.pull inner.pull n stream shared).2.1⟩ : Reader σ),
      (ChunkStream.pull inner.pull n stream shared).2.2) = _
    rw [hpull]
    rfl
  refine ⟨_, _, shared', hread, ⟨inner, stream', rfl, ?_, hready', ?_⟩, hsettled, hready'.source.expects⟩
  · show stream'.Reached _ _ _ _ (reading.lengths ++ [n]).sum
    rw [List.sum_append, List.sum_singleton]
    exact hreached'
  · rw [Bytes.pieces_append, List.map_append, ← houtcomes]
    rfl

/-- What follows the encoding has delivered the right pieces, and past the chunks it has found every
checksum. The trailers of the context are paired with the values that were sent, and all these are the one
checksum. -/
theorem arrived (h : reading.Follows c payload ids shared) :
    reading.Arrived c payload (c.encode (checksums c.trailers.length payload) payload) shared := by
  obtain ⟨inner, stream, hreader, hreached, hready, houtcomes⟩ := h
  obtain ⟨rest, -, hholds⟩ := hreached.holds
  refine ⟨houtcomes, stream.phase, stream.previous, by rw [hreader]; rfl, fun hphase => ?_⟩
  intro trailer htrailer
  have hresolved := hready.ready hphase
  rw [hholds.context] at hresolved
  obtain ⟨entry, hentry, -, hvalue, -⟩ := Outcome.exists_partner hresolved htrailer
  rwa [List.eq_of_mem_replicate hentry] at hvalue

/-- A reader that was just opened follows the encoding from its start. Nothing was read yet, so its pieces
are none and its stream is among the chunks. -/
theorem of_openReader {request : Request σ} {opened : Shared} {reader : Reader σ}
    (hsends : request.SendsChecksums c payload) (hexpects : shared.Expects payload request.body.promises)
    (hopen : request.body.openReader shared = (.ok (some reader), opened)) :
    Follows c payload request.body.promises opened { reader } := by
  obtain ⟨id, body, hbody, hoffers⟩ := hsends.body
  have hsize := hsends.chunkSize
  rw [hbody] at hexpects hopen ⊢
  obtain ⟨inner, stream, hinner, hstart, rfl⟩ := Body.exists_reader_of_chunked hopen
  have hexpects' : (shared.countOpening id).Expects payload body.promises := hexpects.of_trailers rfl
  obtain ⟨hsupplies, hcomputes⟩ := Body.computes_of_openReader hoffers hexpects' hinner
  obtain ⟨stream', hstart', hreached⟩ :=
    ChunkStream.start_reached (checksums c.trailers.length payload) hsupplies hsize
  obtain rfl := Except.ok.inj (hstart.symm.trans hstart')
  -- The source is that of the payload's reader, and no frame was produced yet.
  have hfresh : stream.source = inner.state ∧ stream.phase = .chunks := by
    rw [ChunkStream.start, if_neg hsize] at hstart
    rw [← Except.ok.inj hstart]
    exact ⟨rfl, rfl⟩
  refine ⟨inner.layers, stream, rfl, hreached, ⟨?_, fun hphase => absurd hfresh.2 hphase⟩, rfl⟩
  rw [hfresh.1]
  exact hcomputes

end Reading.Follows

end

/-! ## Sessions

Readers take turns in any order. Each stands somewhere in the same encoding, and the invariant is on
all of them at once. -/

/-- Opening a reader, reading from one and letting one go. -/
def Action.IsReading {σ : Type} : Action σ → Prop
  | .openReader _ | .read .. | .close _ => True
  | _ => False

namespace Session

variable {σ : Type} [ByteSource σ] {request : Request σ} {session : Session σ} {c : ChunkContext}
  {payload : Bytes}

/-- A session that reads the one request that it holds. -/
structure Serving (c : ChunkContext) (payload : Bytes) (request : Request σ) (session : Session σ) :
    Prop where
  requests : session.requests = [request]
  expects : session.shared.Expects payload request.body.promises
  readings : ∀ reading ∈ session.readings,
    reading.Follows c payload request.body.promises session.shared

namespace Serving

/-- The same request with other readings: if trailers were only settled in the meantime, it is enough to
look at the readings that are new. -/
theorem congr (h : session.Serving c payload request) {later : Session σ}
    (hrequests : later.requests = session.requests) (hsettled : session.shared.SettledIn later.shared)
    (hexpects : later.shared.Expects payload request.body.promises)
    (hreadings : ∀ reading ∈ later.readings, reading ∈ session.readings
      ∨ reading.Follows c payload request.body.promises later.shared) :
    later.Serving c payload request := by
  refine ⟨hrequests.trans h.requests, hexpects, fun reading hreading => ?_⟩
  rcases hreadings reading hreading with hbefore | hnew
  · exact (h.readings reading hbefore).mono hsettled hexpects
  · exact hnew

/-- Opening adds a reader at the start of the encoding, if the body allows for one more. It settles nothing.
-/
theorem openReader (h : session.Serving c payload request) (hsends : request.SendsChecksums c payload)
    (held : Nat) : (session.step (.openReader held)).Serving c payload request := by
  refine Session.elim_keeps (P := (·.Serving c payload request)) h fun other hheld => ?_
  -- There is no other request to open a reader on.
  have hother : other = request := by
    have hmem := List.mem_of_getElem? hheld
    rw [h.requests] at hmem
    exact List.mem_singleton.mp hmem
  subst hother
  have hsame : (other.body.openReader session.shared).2.trailers = session.shared.trailers :=
    other.body.trailers_openReader session.shared
  refine h.congr rfl (.of_trailers hsame) (h.expects.of_trailers hsame) fun reading hreading => ?_
  rcases List.mem_append.mp hreading with hbefore | hnew
  · exact .inl hbefore
  · obtain ⟨reader, hopened, rfl⟩ := mem_started.mp hnew
    have hopen : other.body.openReader session.shared
        = (.ok (some reader), (other.body.openReader session.shared).2) := by rw [← hopened]
    exact .inr (.of_openReader hsends h.expects hopen)

/-- A reading moves one reader along the encoding and leaves the others where they are. A place at which no
reader stands changes nothing. -/
theorem read (h : session.Serving c payload request) (hsends : request.SendsChecksums c payload)
    (place n : Nat) : (session.step (.read place n)).Serving c payload request := by
  refine Session.elim_keeps (P := (·.Serving c payload request)) h fun reading hplace => ?_
  have hreading := h.readings reading (List.mem_of_getElem? hplace)
  obtain ⟨outcome, reader, shared', hread, hfollows, hsettled, hexpects⟩ :=
    hreading.read hsends.chunkSize hsends.trailers n
  simp only [hread]
  refine h.congr rfl hsettled hexpects fun other hother => ?_
  rcases List.mem_or_eq_of_mem_set hother with hbefore | rfl
  · exact .inl hbefore
  · exact .inr hfollows

/-- Closing a reader keeps the promises of the request, since the request itself is still held and its
promises with it. So no trailer is given up that another reader needs. -/
theorem close (h : session.Serving c payload request) (place : Nat) :
    (session.step (.close place)).Serving c payload request := by
  have hkept : request.body.promises ⊆ Holdings.promises ⟨session.requests,
      (session.readings.eraseIdx place).map (·.reader)⟩ := by
    intro id hid
    rw [Holdings.promises, h.requests]
    exact List.mem_append_left _ (List.mem_flatMap.mpr ⟨request, List.mem_singleton.mpr rfl, hid⟩)
  refine h.congr rfl (fun _ _ => Shared.trailer?_giveUp) (h.expects.giveUp hkept) fun reading hreading => ?_
  exact .inl (List.mem_of_mem_eraseIdx hreading)

/-- **Every such action keeps the readers serving.** There is one case for each kind of action; the actions
that sign or declare are none of them. -/
theorem step (hsends : request.SendsChecksums c payload) (session : Session σ) (action : Action σ)
    (haction : action.IsReading) (h : session.Serving c payload request) :
    (session.step action).Serving c payload request := by
  cases action with
  | openReader held => exact h.openReader hsends held
  | read place n => exact h.read hsends place n
  | close place => exact h.close place
  | assemble | takePayload | declareSha256 | sign | cancel | discard => exact haction.elim

end Serving

variable {clock : Clock} {config : Config} {identity : Identity} {shared after : Shared}

/-- **Declared checksums arrive in time and are right.** A strict reader of the encoding finds the payload
and behind it the checksums that were declared, and whichever readers are opened and however their readings
alternate, each of them delivers this encoding. The induction is on the actions, with `Serving` as the
invariant. -/
theorem declared_checksums_arrive {n : Nat} (hn : n ≠ 0) (hoffers : request.body.Offers payload)
    (hpromises : request.body.promises = []) (htrailers : request.trailers = [])
    {signed : SignedRequest σ}
    (hsign : Signer.sign clock config identity (request.withSha256Trailers shared n).1
      (request.withSha256Trailers shared n).2 = (.ok signed, after)) :
    ∃ id c last, signed.request.body = .chunked id (request.withSha256Trailers shared n).1.body c
      ∧ c.trailers.length = n
      ∧ c.payload? c.seed (c.encode (checksums n payload) payload)
        = some (payload, last, c.checksumBlock n payload last)
      ∧ ∀ actions : List (Action σ), (∀ action ∈ actions, action.IsReading) →
        let session := run { requests := [signed.request], shared := after } actions
        ∀ reading ∈ session.readings,
          reading.Arrived c payload (c.encode (checksums n payload) payload) session.shared := by
  have hdeclares := Request.declares_withSha256Trailers hoffers hpromises htrailers shared n
  obtain ⟨id, c, hbody, hlength, hsends, hexpects⟩ := Signer.sign_declares hdeclares hn hsign
  have hnonempty : c.trailers ≠ [] := by
    intro hnil
    rw [hnil] at hlength
    exact hn hlength.symm
  obtain ⟨last, hlast⟩ := ChunkContext.payload?_encode hsends.chunkSize (checksums n payload) payload
  rw [ChunkContext.closing_checksums hnonempty] at hlast
  refine ⟨id, c, last, hbody, hlength, hlast, ?_⟩
  intro actions hactions session reading hreading
  -- Right after signing there are no readers, and the trailers wait for them.
  have hstart : Serving c payload signed.request { requests := [signed.request], shared := after } :=
    ⟨rfl, hexpects, fun reading hreading => absurd hreading List.not_mem_nil⟩
  have hrun : session.Serving c payload signed.request :=
    run_of_kind (Serving.step hsends) hstart actions hactions
  have harrived := (hrun.readings reading hreading).arrived
  rwa [hlength] at harrived

/-- Two readers of one body, the second of which comes to the end first. -/
def alternating : List (Action MemorySource) :=
  [.openReader 0, .openReader 0, .read 0 5, .read 1 1000, .read 0 1000]

def twiceDeclared : Request MemorySource × Shared := Signer.sampleRequest.withSha256Trailers {} 2

/-- Two checksums of one body, and two readers that take turns; the second is at the end before the first.
-/
theorem declared_checksums_arrive_of_two_readers :
    Signer.sampleRequest.body.Offers (ascii "abc") ∧ Signer.sampleRequest.body.promises = []
    ∧ Signer.sampleRequest.trailers = []
    ∧ ∃ signed after, Signer.sign ⟨⟨0⟩, none⟩ sampleConfig (.credentials Signer.sampleCredentials)
        twiceDeclared.1 twiceDeclared.2 = (.ok signed, after)
      ∧ (run { requests := [signed.request], shared := after } alternating).readings.length = 2
      ∧ ∃ c, ∀ reading ∈ (run { requests := [signed.request], shared := after } alternating).readings,
        reading.Arrived c (ascii "abc") (c.encode (checksums 2 (ascii "abc")) (ascii "abc"))
          (run { requests := [signed.request], shared := after } alternating).shared := by
  have hok : (Signer.sign ⟨⟨0⟩, none⟩ sampleConfig (.credentials Signer.sampleCredentials)
      twiceDeclared.1 twiceDeclared.2).1.isOk = true := by decide +kernel
  obtain ⟨signed, after, hsign⟩ := Signer.exists_signed_of_isOk hok
  have hreaders : (match Signer.sign ⟨⟨0⟩, none⟩ sampleConfig (.credentials Signer.sampleCredentials)
      twiceDeclared.1 twiceDeclared.2 with
      | (.ok signed, after) =>
        (run { requests := [signed.request], shared := after } alternating).readings.length
      | (.error _, _) => 0) = 2 := by decide +kernel
  rw [hsign] at hreaders
  have hoffers : Signer.sampleRequest.body.Offers (ascii "abc") := rfl
  have hpromises : Signer.sampleRequest.body.promises = [] := rfl
  have htrailers : Signer.sampleRequest.trailers = [] := rfl
  obtain ⟨id, c, last, -, -, -, harrive⟩ :=
    declared_checksums_arrive (Nat.succ_ne_zero 1) hoffers hpromises htrailers hsign
  refine ⟨hoffers, hpromises, htrailers, signed, after, hsign, hreaders, c, ?_⟩
  refine harrive alternating fun action haction => ?_
  simp only [alternating, List.mem_cons, List.not_mem_nil, or_false] at haction
  rcases haction with rfl | rfl | rfl | rfl | rfl <;> trivial

end Session

end SigV4
