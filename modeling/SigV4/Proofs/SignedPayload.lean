import SigV4.Proofs.ChunkRoundTrip
import SigV4.Proofs.Resigning
import SigV4.Proofs.Verification

/-!
# The payload that is signed is the payload that is sent

What stands in the payload's place of a signature is settled before the body is sent, by what the body is
and what the configuration allows:

* **`Signer.chosen_of_resolveHash`**: which of the four ways it is, and why.
* **`Reader.drains_of_drain`**: a payload that is hashed is read to its end by the loop, so the hash is that
  of one reading of the body.
* **`Signer.sign_hashes_what_is_sent`**: the signature vouches for every later reading of the body that is
  sent, unless the payload is not signed or is signed chunk by chunk.
-/

namespace SigV4

/-! ## Reading to the end -/

namespace Pull.Drains

variable {ρ : Type} {pull : Pull ρ} {source source' : ρ} {shared shared' : Shared}

/-- A reading of a positive length that returns nothing is the end. -/
theorem of_end {n : Nat} (hn : 0 < n) (hend : (pull n source shared).1 = .ok []) :
    pull.Drains source shared [] :=
  ⟨[], [], source, shared, n, rfl, hn, hend, rfl⟩

theorem cons {n : Nat} {piece rest : Bytes} (hpull : pull n source shared = (.ok piece, source', shared'))
    (h : pull.Drains source' shared' rest) : pull.Drains source shared (piece ++ rest) := by
  obtain ⟨lengths, pieces, last, final, m, hreads, hm, hend, rfl⟩ := h
  refine ⟨n :: lengths, piece :: pieces, last, final, m, ?_, hm, hend, rfl⟩
  simp only [Pull.reads, hpull, hreads, List.map_cons]

end Pull.Drains

/-- The loop that hashes a payload reads it to its end. It stops at the first empty answer, so what it has
collected by then is all that the reader delivers, in pieces as it asks for them. -/
theorem Reader.drains_of_drain {σ : Type} [ByteSource σ] {reader : Reader σ} {shared later : Shared}
    {text : Bytes} (h : reader.drain shared = (.ok text, later)) :
    reader.layers.pull.Drains reader.state shared text := by
  -- The loop collects what it has read so far in `front`. The induction is on its budget, and a run that
  -- uses it up does not return.
  have hgo (budget : Nat) (layers : Layers) (state : layers.State σ) (shared : Shared) (front : Bytes)
      (hgo : drain.go budget ⟨layers, state⟩ shared front = (.ok text, later)) :
      ∃ rest, text = front ++ rest ∧ layers.pull.Drains state shared rest := by
    induction budget generalizing state shared front with
    | zero => exact absurd (Prod.mk.inj hgo).1 (by simp)
    | succ budget ih =>
      rcases hpull : layers.pull 65536 state shared with ⟨outcome, state', shared'⟩
      have hread : Reader.read 65536 (⟨layers, state⟩ : Reader σ) shared
          = (outcome, ⟨layers, state'⟩, shared') := by
        rw [read, hpull]
      rw [drain.go, hread] at hgo
      cases outcome with
      | error failure => exact absurd (Prod.mk.inj hgo).1 (by simp)
      | ok piece =>
        cases piece with
        | nil =>
          obtain rfl : front = text := Except.ok.inj (Prod.mk.inj hgo).1
          exact ⟨[], by simp, .of_end (by decide) (congrArg Prod.fst hpull)⟩
        | cons b piece =>
          obtain ⟨rest, htext, hrest⟩ := ih state' shared' (front ++ b :: piece) hgo
          exact ⟨b :: piece ++ rest, by rw [htext, List.append_assoc], hrest.cons hpull⟩
  obtain ⟨rest, rfl, hrest⟩ := hgo _ reader.layers reader.state shared [] h
  exact hrest

/-- Readings of content in memory cut it into pieces of their lengths. -/
theorem reads_memory (lengths : List Nat) (content : Bytes) (shared : Shared) :
    Pull.reads (ByteSource.pull : Pull MemorySource) lengths ⟨content⟩ shared
      = ((Bytes.pieces lengths content).map .ok, ⟨content.drop lengths.sum⟩, shared) := by
  induction lengths generalizing content with
  | nil => rfl
  | cons n lengths ih =>
    have hpull : (ByteSource.pull : Pull MemorySource) n ⟨content⟩ shared
        = (.ok (content.take n), ⟨content.drop n⟩, shared) := rfl
    simp only [Pull.reads, hpull, ih, List.drop_drop]
    rfl

/-- Content in memory is what its readers deliver. -/
theorem drains_memory {content text : Bytes} {shared : Shared}
    (h : (ByteSource.pull : Pull MemorySource).Drains ⟨content⟩ shared text) : text = content := by
  obtain ⟨lengths, pieces, source', shared', n, hreads, hn, hend, rfl⟩ := h
  -- The pieces are known, and the last reading tells that they are all of the content.
  rw [reads_memory] at hreads
  obtain ⟨hpieces, rfl, rfl⟩ : _ ∧ _ = source' ∧ shared = shared' := by simpa using hreads
  have hpieces' : Bytes.pieces lengths content = pieces :=
    List.map_injective_iff.mpr (fun _ _ => Except.ok.inj) hpieces
  rw [← hpieces']
  exact Bytes.flatten_pieces_of_end hn (Except.ok.inj hend)

namespace Body

/-- No body is its own payload. -/
theorem payload?_ne_self {σ : Type} (body : Body σ) : body.payload? ≠ some body := by
  cases body with
  | chunked id payload context =>
    intro h
    have hsize := congrArg sizeOf (Option.some.inj h)
    simp only [chunked.sizeOf_spec] at hsize
    omega
  | _ => simp [payload?]

variable {σ : Type} [ByteSource σ] {body : Body σ} {shared : Shared}

/-- A reader of the body that is opened in this state and read to its end, in whatever pieces, delivers
`text`. -/
def Delivers (body : Body σ) (shared : Shared) (text : Bytes) : Prop :=
  ∃ reader opened, body.openReader shared = (.ok (some reader), opened)
    ∧ reader.layers.pull.Drains reader.state opened text

/-- All readings of the body, from this state on, deliver `text`. -/
def DeliversOnly (body : Body σ) (shared : Shared) (text : Bytes) : Prop :=
  ∀ later other, shared.SettledIn later → body.Delivers later other → other = text

/-- From this state on a stream has the length that it was declared with. -/
def KeepsLength (body : Body σ) (shared : Shared) : Prop :=
  body.kind = .streaming → ∀ length later text, body.contentLength = some length →
    shared.SettledIn later → body.Delivers later text → text.length = length.toNat

/-- From this state on a body that can be read more than once delivers the same each time. -/
def Repeats (body : Body σ) (shared : Shared) : Prop :=
  body.replayable = true → ∀ first text, shared.SettledIn first → body.Delivers first text →
    body.DeliversOnly shared text

/-- What the loop that hashes a payload reads, the body delivers. -/
theorem delivers_of_drain {text : Bytes} (h : (body.drain shared).1 = .ok (some text)) :
    body.Delivers shared text := by
  unfold drain at h
  split at h
  next => exact absurd h (by simp)
  next => exact absurd h (by simp)
  next reader opened hopen =>
    rcases hdrain : reader.drain opened with ⟨outcome, later⟩
    rw [hdrain] at h
    cases outcome with
    | error failure => exact absurd h (by simp [Except.map])
    | ok read =>
      obtain rfl : read = text := Option.some.inj (Except.ok.inj h)
      exact ⟨reader, opened, hopen, Reader.drains_of_drain hdrain⟩

/-- A body whose readers all start from the same state delivers what that state holds. -/
theorem deliversOnly_of_openReader {layers : Layers} {state : layers.State σ} {text : Bytes}
    (hopen : ∀ later, ∃ opened, body.openReader later = (.ok (some ⟨layers, state⟩), opened))
    (hholds : ∀ opened other, layers.pull.Drains state opened other → other = text) :
    body.DeliversOnly shared text := by
  rintro later other - ⟨reader, opened, hreader, hdrains⟩
  obtain ⟨opened', hopen'⟩ := hopen later
  obtain ⟨rfl, rfl⟩ : ⟨layers, state⟩ = reader ∧ opened' = opened := by
    simpa using hopen'.symm.trans hreader
  exact hholds _ _ hdrains

/-- The body without content delivers nothing. -/
theorem deliversOnly_empty : (empty : Body σ).DeliversOnly shared [] :=
  deliversOnly_of_openReader (fun later => ⟨later, rfl⟩) fun _ _ => drains_memory

/-- Content in memory is delivered however often it is read, since each reader has its own position. -/
theorem deliversOnly_bytes (content : Bytes) : (bytes content : Body σ).DeliversOnly shared content :=
  deliversOnly_of_openReader (fun later => ⟨later, rfl⟩) fun _ _ => drains_memory

/-- A factory that always returns the same content in memory makes a stream that delivers it. -/
theorem deliversOnly_stream (id : StreamId) (length : Option UInt64) (content : Bytes) (shared : Shared) :
    (stream id length true fun _ => some (MemorySource.mk content)).DeliversOnly shared content :=
  deliversOnly_of_openReader (fun later => ⟨later.countOpening id, rfl⟩) fun _ _ => drains_memory

/-- Content in memory can be read to its end. -/
theorem delivers_bytes (content : Bytes) : (bytes content : Body σ).Delivers shared content := by
  refine ⟨⟨.memory, MemorySource.mk content⟩, shared, by simp [openReader, consumed, replayable], ?_⟩
  -- One reading of everything is followed by one that returns nothing.
  have hall : (ByteSource.pull : Pull MemorySource) content.length ⟨content⟩ shared
      = (.ok content, ⟨[]⟩, shared) := by
    simp [ByteSource.pull, ByteSource.read]
  have hend : (ByteSource.pull : Pull MemorySource).Drains ⟨[]⟩ shared [] := .of_end Nat.one_pos rfl
  have hdrains := hend.cons hall
  rwa [List.append_nil] at hdrains

/-- A body that delivers only this text repeats itself. -/
theorem DeliversOnly.repeats {text : Bytes} (h : body.DeliversOnly shared text) : body.Repeats shared := by
  intro _ first read hfirst hread later other hlater hother
  rw [h first read hfirst hread]
  exact h later other hlater hother

/-- It keeps its length, if that of the text is the one that was declared. -/
theorem DeliversOnly.keepsLength {text : Bytes} (h : body.DeliversOnly shared text)
    (htext : ∀ length, body.contentLength = some length → text.length = length.toNat) :
    body.KeepsLength shared := by
  intro _ length later other hlength hlater hother
  rw [h later other hlater hother]
  exact htext length hlength

/-- A stream that was declared to be empty is empty. -/
theorem KeepsLength.deliversOnly_nil (h : body.KeepsLength shared) (hkind : body.kind = .streaming)
    (hlength : body.contentLength = some 0) : body.DeliversOnly shared [] := by
  intro later text hlater htext
  exact List.length_eq_zero_iff.mp (h hkind 0 later text hlength hlater htext)

end Body

namespace Signer

variable {σ : Type} {clock : Clock} {config : Config} {identity : Identity} {request : Request σ}
  {body : Body σ} {hash : PayloadHash} {shared after : Shared} {place : Bytes}

/-! ## The choice of the hash -/

/-- How a signature speaks of a body, where nothing else is prescribed, and why in this way. -/
inductive Chosen (config : Config) (body : Body σ) (hash : PayloadHash) : Prop
  | encoded (hstreaming : hash.streaming = true)
  | emptyBody (hkind : hash.kind = .emptyBody)
      (hempty : body.isEmpty = true ∨ body.kind = .streaming ∧ body.contentLength = some 0)
  | unsigned (hkind : hash.kind = .unsignedPayload)
      (hreason : config.unsignedPayload = true ∨ body.kind = .streaming ∧ body.replayable = false)
  | fromPayload (hkind : hash.kind = .fromPayload)

/-- **Why a hash is chosen.** The cases are those of `resolveHash` in their order: whether there are
trailers, whether the body is empty, whether chunks are sent, and whether the payload may be left unsigned.
-/
theorem chosen_of_resolveHash (hprescribed : config.hashOverride = none)
    (h : resolveHash request config = .ok hash) : Chosen config request.body hash := by
  unfold resolveHash at h
  rw [hprescribed] at h
  dsimp only at h
  obtain rfl := Except.ok.inj h
  by_cases htrailers : (!request.trailers.isEmpty) = true
  · refine .encoded ?_
    -- Whether chunks are signed depends on the configuration; that there are chunks does not.
    rw [PayloadHash.streaming, if_pos htrailers]
    cases config.unsignedPayload with
    | true => rfl
    | false => rfl
  · rw [if_neg htrailers]
    by_cases hempty : (request.body.isEmpty
        || (request.body.kind == .streaming && request.body.contentLength == some 0)) = true
    · rw [if_pos hempty]
      exact .emptyBody rfl (by simpa using hempty)
    · rw [if_neg hempty]
      by_cases hchunks : sendsChunks request config = true
      · exact .encoded (by rw [if_pos hchunks]; rfl)
      · rw [if_neg hchunks]
        by_cases hunsigned : ((request.body.kind == .streaming && !request.body.replayable)
            || config.unsignedPayload) = true
        · rw [if_pos hunsigned]
          refine .unsigned rfl ?_
          rw [or_comm]
          simpa using hunsigned
        · exact .fromPayload (if_neg hunsigned)

/-! ## What the hash says

The text in the payload's place is a hash, or one of a few literals. No hash is a literal, so it can
be told which of the two it is. -/

/-- What stands for a payload that is signed chunk by chunk. -/
def streamingLiterals : List Bytes :=
  [ascii "STREAMING-AWS4-HMAC-SHA256-PAYLOAD", ascii "STREAMING-AWS4-HMAC-SHA256-PAYLOAD-TRAILER",
    ascii "STREAMING-UNSIGNED-PAYLOAD-TRAILER"]

/-- A hash that is not of a payload and goes with chunks has one of the literals. -/
theorem literal_mem_streamingLiterals (h : hash.streaming = true) : hash.literal ∈ streamingLiterals := by
  unfold PayloadHash.streaming at h
  unfold PayloadHash.literal streamingLiterals
  cases hkind : hash.kind <;> simp_all

/-- No hash is one of the literals: it has 64 digits and they have other lengths. -/
theorem sha256Hex_not_mem_streamingLiterals (text : Bytes) : sha256Hex text ∉ streamingLiterals := by
  have hlength : (sha256Hex text).length = 64 := by
    rw [sha256Hex, Hex.length_encode, length_sha256]
  have hother : ∀ literal ∈ streamingLiterals, literal.length ≠ 64 := by decide
  exact fun hmem => hother _ hmem hlength

/-- The constant that stands for an empty payload is its hash. -/
theorem emptyHash_eq : Signature.emptyHash = sha256Hex [] := by decide +kernel

/-- What the text in the payload's place says of a body that is sent as it is. -/
inductive Vouches [ByteSource σ] (config : Config) (sent : Body σ) (shared : Shared) : Bytes → Prop
  /-- It is the hash of all that can be read, which was read if there is anything. -/
  | text {text : Bytes} (hread : text = [] ∨ sent.Delivers shared text)
      (honly : sent.DeliversOnly shared text) : Vouches config sent shared (sha256Hex text)
  /-- It says nothing, for one of two reasons. -/
  | nothing (hreason : config.unsignedPayload = true ∨ sent.kind = .streaming ∧ sent.replayable = false) :
      Vouches config sent shared (ascii "UNSIGNED-PAYLOAD")

variable [ByteSource σ]

/-- What vouches for a body does not say that it is signed chunk by chunk. -/
theorem Vouches.not_mem_streamingLiterals (h : Vouches config body shared place) :
    place ∉ streamingLiterals := by
  cases h with
  | text => exact sha256Hex_not_mem_streamingLiterals _
  | nothing => decide

/-- The hash of a payload that is read is that of every reading. Content in memory is hashed where it is; a
stream is read for it, and a body that repeats itself delivers the same again when it is sent. -/
theorem vouches_of_fromPayload (hrepeats : body.Repeats shared) (hkind : hash.kind = .fromPayload)
    (h : hashPayload body hash shared = (.ok place, after)) : Vouches config body shared place := by
  unfold hashPayload at h
  rw [if_pos hkind] at h
  -- Content in memory is hashed where it is, and only a stream is opened.
  split at h
  next =>
    obtain rfl := Except.ok.inj (Prod.mk.inj h).1
    rw [emptyHash_eq]
    exact .text (.inl rfl) Body.deliversOnly_empty
  next content =>
    obtain rfl := Except.ok.inj (Prod.mk.inj h).1
    exact .text (.inr (Body.delivers_bytes content)) (Body.deliversOnly_bytes content)
  next =>
    have hreplayable : body.replayable = true := by
      by_contra hone_shot
      rw [hashStream, if_pos (by simpa using hone_shot)] at h
      exact absurd (Prod.mk.inj h).1 (by simp)
    rw [hashStream_eq hreplayable] at h
    obtain ⟨hdrained, -⟩ := Prod.mk.inj h
    cases hread : (body.drain shared).1 with
    | error failure =>
      rw [hread] at hdrained
      exact absurd hdrained (by simp [drainedHash])
    | ok content =>
      rw [hread] at hdrained
      cases content with
      | none => exact absurd hdrained (by simp [drainedHash])
      | some text =>
        obtain rfl : sha256Hex text = place := Except.ok.inj hdrained
        -- Signing has read the body once, and every other reading delivers the same.
        have hdelivers := Body.delivers_of_drain hread
        exact .text (.inr hdelivers) (hrepeats hreplayable shared text (.refl shared) hdelivers)

/-- A body that is not encoded is vouched for. There is one case for each reason of the choice: an empty
body has the hash of nothing, an unsigned one has none, and any other one is read. -/
theorem vouches_of_chosen (hlength : body.KeepsLength shared) (hrepeats : body.Repeats shared)
    (hchosen : Chosen config body hash) (hplain : hash.streaming = false)
    (h : hashPayload body hash shared = (.ok place, after)) : Vouches config body shared place := by
  have hliteral (hkind : hash.kind ≠ .fromPayload) : place = hash.literal := by
    rw [hashPayload_of_ne hkind] at h
    exact (Except.ok.inj (Prod.mk.inj h).1).symm
  cases hchosen with
  | encoded hstreaming => exact absurd hstreaming (Bool.eq_false_iff.mp hplain)
  | emptyBody hkind hempty =>
    rw [hliteral (by simp [hkind]), PayloadHash.literal, hkind]
    show Vouches config body shared Signature.emptyHash
    rw [emptyHash_eq]
    -- A body counts as empty if it has no content, or if it is a stream that was declared to have none.
    -- What such a stream delivers is for the caller to keep.
    rcases hempty with hempty | ⟨hstream, hzero⟩
    · refine .text (.inl rfl) ?_
      cases body with
      | empty => exact Body.deliversOnly_empty
      | bytes content =>
        obtain rfl : content = [] := by simpa [Body.isEmpty] using hempty
        exact Body.deliversOnly_bytes []
      | _ => exact absurd hempty (by simp [Body.isEmpty])
    · exact .text (.inl rfl) (hlength.deliversOnly_nil hstream hzero)
  | unsigned hkind hreason =>
    rw [hliteral (by simp [hkind]), PayloadHash.literal, hkind]
    exact .nothing hreason
  | fromPayload hkind => exact vouches_of_fromPayload hrepeats hkind h

/-- **The payload that is signed is the payload that is sent.** What stands in the payload's place of the
request that was signed is the hash of all that is ever read from the body that is returned, or it says
that the payload is not signed, because this was asked for or the body is one-shot, or that it is signed
chunk by chunk, and that exactly if the body encodes the payload of the request. Of a stream it is assumed
that it keeps the length it was declared with, and that it repeats itself if it can be read again. -/
theorem sign_hashes_what_is_sent {signed : SignedRequest σ}
    (h : sign clock config identity request shared = (.ok signed, after))
    (hprescribed : config.hashOverride = none)
    (hlength : (request.body.payload?.getD request.body).KeepsLength shared)
    (hrepeats : (request.body.payload?.getD request.body).Repeats shared) :
    ∃ credentials canonical, identity = .credentials credentials
      ∧ Verifies config credentials canonical.payloadHash signed
        (Timestamp.amzDate (config.signingDate.getD clock.now)) canonical
      ∧ (Vouches config signed.request.body shared canonical.payloadHash
        ∨ canonical.payloadHash ∈ streamingLiterals)
      ∧ (canonical.payloadHash ∈ streamingLiterals
        ↔ signed.request.body.payload? = some (request.body.payload?.getD request.body)) := by
  obtain ⟨attempt, place, hashed, finished, hprepared, hhash, hfinish, hsigned⟩ := sign_ok h
  rw [← unwrapBody_body] at hlength hrepeats ⊢
  obtain ⟨canonical, hverifies⟩ := Attempt.finish_ok hfinish
  obtain rfl := CanonicalRequest.payloadHash_of_build hverifies.rebuilt
  rw [hprepared.amzDate] at hverifies
  refine ⟨attempt.credentials, canonical, hprepared.identity_eq, ?_⟩
  have hbody : finished.request.body = (unwrapBody request).body :=
    (Attempt.finish_edited hfinish).body.trans hprepared.body_eq
  rw [hprepared.body_eq] at hhash
  -- An encoded body is signed with a literal; any other one is sent as it was hashed.
  split at hsigned
  next hstreaming =>
    obtain ⟨rfl, -⟩ := Prod.mk.inj hsigned
    rw [hashPayload_of_streaming hstreaming] at hhash
    have hliteral : canonical.payloadHash ∈ streamingLiterals := by
      rw [← Except.ok.inj (Prod.mk.inj hhash).1]
      exact literal_mem_streamingLiterals hstreaming
    exact ⟨hverifies.with_body _, .inr hliteral, iff_of_true hliteral (congrArg some hbody)⟩
  next hplain =>
    obtain ⟨rfl, -⟩ := Prod.mk.inj hsigned
    have hvouches := vouches_of_chosen hlength hrepeats (chosen_of_resolveHash hprescribed hprepared.hash)
      (Bool.eq_false_iff.mpr hplain) hhash
    rw [hbody]
    exact ⟨hverifies, .inl hvouches,
      iff_of_false hvouches.not_mem_streamingLiterals (Body.payload?_ne_self _)⟩

/-- A stream that is read once to be hashed and once to be sent. -/
theorem sign_hashes_what_is_sent_of_stream :
    firstConfig.hashOverride = none ∧ retriedRequest.body.KeepsLength { openings := [0] }
      ∧ retriedRequest.body.Repeats { openings := [0] }
      ∧ ∃ signed after, sign ⟨⟨0⟩, none⟩ firstConfig (.credentials tokenCredentials) retriedRequest
          { openings := [0] } = (.ok signed, after)
        ∧ ∃ credentials canonical, Identity.credentials tokenCredentials = .credentials credentials
          ∧ Verifies firstConfig credentials canonical.payloadHash signed
            (Timestamp.amzDate (firstConfig.signingDate.getD (Clock.now ⟨⟨0⟩, none⟩))) canonical
          ∧ (Vouches firstConfig signed.request.body { openings := [0] } canonical.payloadHash
            ∨ canonical.payloadHash ∈ streamingLiterals)
          ∧ (canonical.payloadHash ∈ streamingLiterals
            ↔ signed.request.body.payload? = some retriedRequest.body) := by
  have honly : retriedRequest.body.DeliversOnly { openings := [0] } (ascii "abc") :=
    Body.deliversOnly_stream _ _ _ _
  have hlength : retriedRequest.body.KeepsLength { openings := [0] } := by
    refine honly.keepsLength fun length hdeclared => ?_
    obtain rfl : 3 = length := Option.some.inj hdeclared
    rfl
  have hok : (sign ⟨⟨0⟩, none⟩ firstConfig (.credentials tokenCredentials) retriedRequest
      { openings := [0] }).1.isOk = true := by decide +kernel
  obtain ⟨signed, after, hsign⟩ := exists_signed_of_isOk hok
  exact ⟨rfl, hlength, honly.repeats, signed, after, hsign,
    sign_hashes_what_is_sent hsign rfl hlength honly.repeats⟩

end Signer

end SigV4
