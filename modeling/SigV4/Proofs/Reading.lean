import SigV4.Proofs.ChunkDelivery
import SigV4.Request

/-!
# Reading a body in one state and in another

Opening a body counts openings and reading it settles trailers. Neither gets in the way of other
readings:

* **`Isolated`**: a step sees no opening counts and takes back no trailer. That holds for a reading
  through any layers (`Layers.isolated_pull`), by induction on the layers.
* **`Body.exists_source_of_stream`**, **`Body.exists_reader_of_checksummed`**,
  **`Body.exists_reader_of_chunked`**: what a reader is that was opened, for each kind of body. All that is
  said of readers later goes by these.
* **`Body.openReader_extended`**: streams that were created later are of no account to a body that
  knows only the streams before (`Body.KnownIn`).
* **`Body.readings`**, **`Body.drain`**: what a reader that is opened now returns, in readings of given
  lengths and read to the end.
-/

namespace SigV4

namespace Shared

variable {shared : Shared} {openings : List Nat}

/-- The same trailers with other opening counts. -/
def withOpenings (shared : Shared) (openings : List Nat) : Shared := { shared with openings }

/-- Settling a trailer and changing counts do not see each other. -/
theorem settle_withOpenings (shared : Shared) (openings : List Nat) (id : TrailerId)
    (value : Outcome Bytes) :
    (shared.withOpenings openings).settle id value = (shared.settle id value).withOpenings openings := by
  show (if (shared.trailer? id).isSome then _ else _) = _
  unfold settle
  split
  · rfl
  · rfl

theorem SettledIn.of_trailers {later : Shared} (h : later.trailers = shared.trailers) :
    shared.SettledIn later := by
  intro id value hvalue
  rw [trailer?, h]
  exact hvalue

/-- Settling a trailer takes back none: it is done only where there is no value yet. -/
theorem settledIn_settle (shared : Shared) (id : TrailerId) (value : Outcome Bytes) :
    shared.SettledIn (shared.settle id value) := by
  unfold settle
  split
  next => exact .refl shared
  next hopen =>
    intro other settled hsettled
    have hne : id ≠ other := by
      rintro rfl
      exact hopen (by rw [hsettled]; rfl)
    rw [trailer?, List.getElem?_set_ne hne]
    exact hsettled

theorem trailer?_settle_of_ne {id other : TrailerId} (h : other ≠ id) (value : Outcome Bytes) :
    (shared.settle id value).trailer? other = shared.trailer? other := by
  unfold settle
  split
  · rfl
  · rw [trailer?, List.getElem?_set_ne h.symm]
    rfl

theorem trailer?_settle_self {id : TrailerId} (h : id < shared.trailers.length) (value : Outcome Bytes) :
    (shared.settle id value).trailer? id = (shared.trailer? id).or (some value) := by
  unfold settle
  split
  next hsettled => rw [Option.or_of_isSome hsettled]
  next hopen =>
    have hnone : shared.trailer? id = none := by simpa using hopen
    rw [hnone, trailer?, List.getElem?_set_self h]
    rfl

@[simp] theorem length_settle (shared : Shared) (id : TrailerId) (value : Outcome Bytes) :
    (shared.settle id value).trailers.length = shared.trailers.length := by
  unfold settle
  split
  · rfl
  · exact List.length_set

end Shared

/-! ## Isolated steps

A reading sees of the state only the trailers, and it leaves the counts alone. Every layer keeps
this. -/

/-- The step unsettles no trailer, and it neither sees nor changes how often streams were opened. -/
def Isolated {α ρ : Type} (step : Shared → α × ρ × Shared) : Prop :=
  ∀ shared : Shared, ∃ result source shared', step shared = (result, source, shared')
    ∧ shared.SettledIn shared'
    ∧ ∀ openings, step (shared.withOpenings openings) = (result, source, shared'.withOpenings openings)

namespace Isolated

variable {ρ : Type} {pull : Pull ρ}

/-- A step that does nothing with the state. -/
theorem of_const {α : Type} (result : α) (source : ρ) :
    Isolated fun shared => (result, source, shared) :=
  fun shared => ⟨result, source, shared, rfl, .refl shared, fun _ => rfl⟩

/-- Readings one after the other are isolated if each is. The induction is on the lengths. -/
theorem reads (h : ∀ n source, Isolated (pull n source)) (lengths : List Nat) (source : ρ) :
    Isolated (Pull.reads pull lengths source) := by
  induction lengths generalizing source with
  | nil => exact of_const [] source
  | cons n lengths ih =>
    intro shared
    obtain ⟨outcome, source₁, shared₁, hpull, hsettled, hother⟩ := h n source shared
    obtain ⟨outcomes, source', shared', hreads, hsettled', hother'⟩ := ih source₁ shared₁
    refine ⟨outcome :: outcomes, source', shared', ?_, hsettled.trans hsettled', fun openings => ?_⟩
    · simp only [Pull.reads, hpull, hreads]
    · simp only [Pull.reads, hother, hother']

/-- A reading of a checksum is isolated: besides the reading below it, it may settle its own trailer. -/
theorem checksummed (h : ∀ n source, Isolated (pull n source)) (n : Nat) (c : Checksummed ρ) :
    Isolated (Checksummed.pull pull n c) := by
  intro shared
  unfold Checksummed.pull
  split
  · exact of_const _ _ shared
  · obtain ⟨outcome, source', shared', hpull, hsettled, hother⟩ := h n c.inner shared
    simp only [hpull, hother]
    -- The end of the payload and a failure both settle the trailer.
    cases outcome with
    | error failure =>
      exact ⟨_, _, _, rfl, hsettled.trans (Shared.settledIn_settle _ _ _),
        fun openings => by simp only [Shared.settle_withOpenings]⟩
    | ok bytes =>
      cases bytes with
      | nil =>
        exact ⟨_, _, _, rfl, hsettled.trans (Shared.settledIn_settle _ _ _),
          fun openings => by simp only [Shared.settle_withOpenings]⟩
      | cons b bytes => exact ⟨_, _, _, rfl, hsettled, fun _ => rfl⟩

/-- Filling a buffer takes several readings, each of which leaves less room. The induction is on the room,
and each reading is isolated by assumption. -/
theorem fill (h : ∀ n source, Isolated (pull n source)) (room : Nat) (source : ρ) (taken : Bytes) :
    Isolated fun shared => ChunkStream.fill pull room source shared taken := by
  induction room using Nat.strongRecOn generalizing source taken with
  | ind room ih =>
    intro shared
    by_cases hroom : room = 0
    · refine ⟨.ok taken.reverse, source, shared, ?_, .refl shared, fun openings => ?_⟩
      · dsimp only
        rw [ChunkStream.fill, if_pos hroom]
      · dsimp only
        rw [ChunkStream.fill, if_pos hroom]
    · obtain ⟨outcome, source₁, shared₁, hpull, hsettled, hother⟩ := h room source shared
      -- The equation of the function is used for both states at once.
      have hstep (state : Shared) := (ChunkStream.fill.eq_def pull room source state taken).trans
        (if_neg hroom)
      simp only [hstep, hpull, hother]
      cases outcome with
      | error failure => exact ⟨_, _, _, rfl, hsettled, fun _ => rfl⟩
      | ok bytes =>
        cases bytes with
        | nil => exact ⟨_, _, _, rfl, hsettled, fun _ => rfl⟩
        | cons b bytes =>
          have hless : room - (bytes.length + 1) < room := by omega
          obtain ⟨outcome, source', shared', hfill, hsettled', hother'⟩ :=
            ih _ hless source₁ (bytes.reverse ++ b :: taken) shared₁
          exact ⟨outcome, source', shared', hfill, hsettled.trans hsettled', hother'⟩

/-- Producing a segment is isolated. It reads the source for a chunk, and for the trailers it looks at
trailers only. -/
theorem refill (h : ∀ n source, Isolated (pull n source)) (s : ChunkStream ρ) :
    Isolated (ChunkStream.refill pull s) := by
  intro shared
  unfold ChunkStream.refill
  split
  · cases hphase : s.phase with
    | chunks =>
      obtain ⟨outcome, source', shared', hfill, hsettled, hother⟩ :=
        fill h s.context.chunkSize.toNat s.source [] shared
      simp only [hfill, hother]
      cases outcome with
      | error failure => exact ⟨_, _, _, rfl, hsettled, fun _ => rfl⟩
      | ok data => exact ⟨_, _, _, rfl, hsettled, fun _ => rfl⟩
    | trailers =>
      -- Trailers are resolved from their values, whatever was opened.
      have hresolve (openings : List Nat) :
          s.context.trailers.mapM (·.resolve (shared.withOpenings openings))
            = s.context.trailers.mapM (·.resolve shared) := rfl
      simp only [hresolve]
      cases s.context.trailers.mapM (·.resolve shared) with
      | error failure => exact of_const _ _ shared
      | ok values => exact of_const _ _ shared
    | finished => exact of_const _ _ shared
    | cancelled => exact of_const _ _ shared
  · exact of_const _ _ shared

/-- A reading refills and copies in turns, and each turn copies a byte at least. So the induction is on the
number of bytes that are asked for, and only the refilling has to do with the state. -/
theorem deliver (h : ∀ n source, Isolated (pull n source)) (n : Nat) (s : ChunkStream ρ) (out : Bytes) :
    Isolated fun shared => ChunkStream.deliver pull n s shared out := by
  induction n using Nat.strongRecOn generalizing s out with
  | ind n ih =>
    intro shared
    cases n with
    | zero =>
      refine ⟨.ok out.reverse, s, shared, ?_, .refl shared, fun openings => ?_⟩
      · dsimp only
        rw [ChunkStream.deliver]
      · dsimp only
        rw [ChunkStream.deliver]
    | succ n =>
      obtain ⟨outcome, s₁, shared₁, hrefill, hsettled, hother⟩ := refill h s shared
      have hstep (state : Shared) := ChunkStream.deliver.eq_def pull (n + 1) s state out
      simp only [hstep, hrefill, hother]
      cases outcome with
      | error failure => exact ⟨_, _, _, rfl, hsettled, fun _ => rfl⟩
      | ok done =>
        -- Where refilling succeeds, both streams have the same bytes pending.
        cases done
        cases hpending : s₁.pending with
        | nil =>
          refine ⟨.ok out.reverse, s₁, shared₁, ?_, hsettled, fun openings => ?_⟩
          · simp only [hpending]
          · simp only [hpending]
        | cons b pending =>
          simp only [hpending]
          have hless : n - (pending.take n).length < n + 1 := by omega
          obtain ⟨outcome, s', shared', hdeliver, hsettled', hother'⟩ :=
            ih _ hless { s₁ with pending := pending.drop n } ((pending.take n).reverse ++ b :: out)
              shared₁
          exact ⟨outcome, s', shared', hdeliver, hsettled.trans hsettled', hother'⟩

end Isolated

/-- **A reading through any layers is isolated.** The induction is on the layers; the caller's source does
not see the shared state at all. -/
theorem Layers.isolated_pull {σ : Type} [ByteSource σ] (layers : Layers) (n : Nat)
    (state : layers.State σ) : Isolated (layers.pull n state) := by
  induction layers generalizing n with
  | memory => exact .of_const _ _
  | caller =>
    intro shared
    exact ⟨_, _, shared, rfl, .refl shared, fun _ => rfl⟩
  | checksummed inner ih => exact .checksummed (fun n source => ih n source) n state
  | chunked inner ih => exact .deliver (fun n source => ih n source) n state []

/-- Reading opens no stream, as it does not change the counts. -/
theorem Reader.openings_read {σ : Type} [ByteSource σ] (reader : Reader σ) (n : Nat) (shared : Shared) :
    (reader.read n shared).2.2.openings = shared.openings := by
  obtain ⟨outcome, state, shared', hpull, -, hother⟩ :=
    reader.layers.isolated_pull n reader.state shared
  -- The same step from the state with the openings that it has.
  have hsame : shared' = shared'.withOpenings shared.openings :=
    congrArg (·.2.2) (hpull.symm.trans (hother shared.openings))
  show (reader.layers.pull n reader.state shared).2.2.openings = _
  rw [hpull]
  exact congrArg (·.openings) hsame

/-! ## Opening a body

A body opens its layers from the outside inward. What a reader is can be read off the body that was
opened. -/

namespace Shared

variable {shared : Shared} {id : StreamId}

/-- The state with further streams, whatever their counts. -/
def extended (shared : Shared) (more : List Nat) : Shared :=
  shared.withOpenings (shared.openings ++ more)

@[simp] theorem extended_nil (shared : Shared) : shared.extended [] = shared := by
  simp [extended, withOpenings]

/-- Whether a stream was opened does not depend on later streams. -/
theorem wasOpened_extended (hid : id < shared.openings.length) (more : List Nat) :
    (shared.extended more).wasOpened id = shared.wasOpened id := by
  simp [extended, withOpenings, wasOpened, openingCount, List.getElem?_append_left hid]

theorem openingCount_extended (hid : id < shared.openings.length) (more : List Nat) :
    (shared.extended more).openingCount id = shared.openingCount id := by
  simp [extended, withOpenings, openingCount, List.getElem?_append_left hid]

/-- Counting an opening is done in its place, wherever the list of counts ends. -/
theorem countOpening_extended (hid : id < shared.openings.length) (more : List Nat) :
    (shared.extended more).countOpening id = (shared.countOpening id).extended more := by
  have hmodify (counts : List Nat) (id : Nat) (hid : id < counts.length) :
      (counts ++ more).modify id (· + 1) = counts.modify id (· + 1) ++ more := by
    induction counts generalizing id with
    | nil => exact absurd hid (Nat.not_lt_zero id)
    | cons count counts ih =>
      cases id with
      | zero => rfl
      | succ id =>
        rw [List.cons_append, List.modify_succ_cons, List.modify_succ_cons,
          ih id (Nat.lt_of_succ_lt_succ hid)]
        rfl
  simp only [extended, withOpenings, countOpening, hmodify shared.openings id hid]

@[simp] theorem length_countOpening (shared : Shared) (id : StreamId) :
    (shared.countOpening id).openings.length = shared.openings.length := List.length_modify _ _ _

theorem newStream_extended (shared : Shared) (more : List Nat) :
    (shared.extended more).newStream
      = (shared.openings.length + more.length, shared.extended (more ++ [0])) := by
  simp [newStream, extended, withOpenings]

end Shared

namespace Body

variable {σ : Type} {body payload : Body σ} {shared : Shared}

/-- The streams that a reader of the body opens. -/
def streamIds : Body σ → List StreamId
  | empty | bytes _ => []
  | stream id .. => [id]
  | checksummed id inner _ => id :: inner.streamIds
  | chunked id payload _ => id :: payload.streamIds

/-- All streams of the body were created. -/
def KnownIn (body : Body σ) (shared : Shared) : Prop :=
  ∀ id ∈ body.streamIds, id < shared.openings.length

/-- Opening a layer leaves the layers below it known. -/
theorem knownIn_of_layer {id : StreamId} {inner : Body σ}
    (h : ∀ other ∈ id :: inner.streamIds, other < shared.openings.length) :
    id < shared.openings.length ∧ inner.KnownIn (shared.countOpening id) := by
  refine ⟨h id List.mem_cons_self, fun other hother => ?_⟩
  rw [Shared.length_countOpening]
  exact h other (List.mem_cons_of_mem id hother)

/-- The streams that are made are known. -/
theorem knownIn_ofSources {sources : Option (Nat → Option σ)} {length : Option UInt64}
    {replayable : Bool} {later : Shared}
    (h : ofSources sources length replayable shared = .ok (body, later)) : body.KnownIn later := by
  cases sources with
  | none => exact absurd h (by simp [ofSources])
  | some sources =>
    obtain ⟨rfl, rfl⟩ := Prod.mk.inj (Except.ok.inj h)
    intro id hid
    rw [List.mem_singleton.mp hid]
    simp

/-- Declaring a checksum makes one more stream, which is known from then on. -/
theorem knownIn_withSha256Trailer {request : Request σ} (h : request.body.KnownIn shared) :
    (request.withSha256Trailer shared).1.body.KnownIn (request.withSha256Trailer shared).2 := by
  intro id hid
  have hlength : (request.withSha256Trailer shared).2.openings.length = shared.openings.length + 1 := by
    simp [Request.withSha256Trailer, Shared.newTrailer, Shared.newStream]
  rw [hlength]
  rcases List.mem_cons.mp hid with rfl | hid
  · exact Nat.lt_succ_self _
  · exact Nat.lt_succ_of_lt (h id hid)

/-- Whether a body was read does not depend on later streams. -/
theorem consumed_extended (h : body.KnownIn shared) (more : List Nat) :
    body.consumed (shared.extended more) = body.consumed shared := by
  have hopened (id : StreamId) (hid : id ∈ body.streamIds) :
      (shared.extended more).wasOpened id = shared.wasOpened id :=
    Shared.wasOpened_extended (h id hid) more
  unfold consumed
  cases body with
  | empty => rfl
  | bytes content => rfl
  | stream id length replayable sources =>
    simp only [streamId?, Option.any_some, hopened id List.mem_cons_self]
  | checksummed id inner trailer =>
    simp only [streamId?, Option.any_some, hopened id List.mem_cons_self]
  | chunked id payload context =>
    simp only [streamId?, Option.any_some, hopened id List.mem_cons_self]

/-- A stream is read from the source that the factory returns, and only as long as it may be opened. -/
theorem exists_source_of_stream {id : StreamId} {length : Option UInt64} {replayable : Bool}
    {sources : Nat → Option σ} {opened : Shared} {reader : Reader σ}
    (h : (stream id length replayable sources).openReader shared = (.ok (some reader), opened)) :
    (stream id length replayable sources).consumed shared = false
      ∧ ∃ source, sources (shared.openingCount id) = some source ∧ reader = ⟨.caller, source⟩ := by
  unfold openReader at h
  split at h
  · exact absurd (Prod.mk.inj h).1 (by simp)
  next hunread =>
    obtain ⟨source, hsource, rfl⟩ := Option.map_eq_some_iff.mp (Except.ok.inj (Prod.mk.inj h).1)
    exact ⟨Bool.eq_false_iff.mpr hunread, source, hsource, rfl⟩

/-- A reader of a checksum is one upon a reader of the body below it, which starts at the beginning of the
payload. -/
theorem exists_reader_of_checksummed {id : StreamId} {inner : Body σ} {trailer : TrailerId}
    {shared opened : Shared} {reader : Reader σ}
    (h : (checksummed id inner trailer).openReader shared = (.ok (some reader), opened)) :
    ∃ below : Reader σ, reader = ⟨.checksummed below.layers, { inner := below.state, trailer }⟩
      ∧ inner.openReader (shared.countOpening id) = (.ok (some below), opened) := by
  unfold openReader at h
  split at h
  · exact absurd (Prod.mk.inj h).1 (by simp)
  · dsimp only at h
    split at h
    next below shared₁ hinner =>
      obtain ⟨hreader, rfl⟩ := Prod.mk.inj h
      exact ⟨below, (Option.some.inj (Except.ok.inj hreader)).symm, hinner⟩
    next hnone => exact absurd h (hnone reader opened)

/-- A reader of an encoding encodes what a reader of its payload returns. Opening it is counted for the
encoding and then for the payload, and both have to succeed. -/
theorem exists_reader_of_chunked {id : StreamId} {payload : Body σ} {c : ChunkContext}
    {shared opened : Shared} {reader : Reader σ}
    (h : (chunked id payload c).openReader shared = (.ok (some reader), opened)) :
    ∃ inner stream, payload.openReader (shared.countOpening id) = (.ok (some inner), opened)
      ∧ ChunkStream.start (some inner.state) c = .ok stream ∧ reader = ⟨.chunked inner.layers, stream⟩ := by
  unfold openReader at h
  split at h
  next => exact absurd (Prod.mk.inj h).1 (by simp)
  next =>
    dsimp only at h
    split at h
    next inner shared₁ hinner =>
      obtain ⟨hreader, rfl⟩ := Prod.mk.inj h
      cases hstart : ChunkStream.start (some inner.state) c with
      | error failure =>
        rw [hstart] at hreader
        exact absurd hreader (by simp [Except.map])
      | ok stream =>
        rw [hstart] at hreader
        obtain rfl := Option.some.inj (Except.ok.inj hreader)
        exact ⟨inner, stream, hinner, hstart, rfl⟩
    next hnone => exact absurd h (hnone reader opened)

/-- Opening a body counts openings and leaves the trailers alone. The induction is on the body, as each
layer opens the one below. -/
theorem trailers_openReader (body : Body σ) (shared : Shared) :
    (body.openReader shared).2.trailers = shared.trailers := by
  induction body generalizing shared with
  | empty => rfl
  | bytes content => rfl
  | stream id length replayable sources =>
    unfold openReader
    split
    · rfl
    · rfl
  | checksummed id inner trailer ih =>
    have hinner := ih (shared.countOpening id)
    unfold openReader
    split
    · rfl
    · dsimp only
      split
      next reader opened hopen =>
        rw [hopen] at hinner
        exact hinner
      next => exact hinner
  | chunked id payload context ih =>
    have hpayload := ih (shared.countOpening id)
    unfold openReader
    split
    · rfl
    · dsimp only
      split
      next reader opened hopen =>
        rw [hopen] at hpayload
        exact hpayload
      next => exact hpayload

/-- **Opening a body is the same whatever streams were created later.** A body marks its own streams only,
all of which are known before. The counts of the later ones stand behind those, where nothing looks at them.
-/
theorem openReader_extended (h : body.KnownIn shared) (more : List Nat) :
    body.openReader (shared.extended more)
      = ((body.openReader shared).1, (body.openReader shared).2.extended more) := by
  -- A layer marks its own stream before it opens the one below, so the induction is for any counts.
  induction body generalizing shared with
  | empty => rfl
  | bytes content => rfl
  | stream id length replayable sources =>
    have hid : id < shared.openings.length := h id List.mem_cons_self
    unfold openReader
    rw [consumed_extended h]
    split
    · rfl
    · simp only [Shared.openingCount_extended hid, Shared.countOpening_extended hid]
  | checksummed id inner trailer ih =>
    obtain ⟨hid, hinner⟩ := knownIn_of_layer h
    unfold openReader
    rw [consumed_extended h]
    split
    · rfl
    · simp only [Shared.countOpening_extended hid, ih hinner]
      rcases inner.openReader (shared.countOpening id) with ⟨outcome, opened⟩
      cases outcome with
      | error failure => rfl
      | ok reader =>
        cases reader with
        | none => rfl
        | some reader => rfl
  | chunked id payload context ih =>
    obtain ⟨hid, hpayload⟩ := knownIn_of_layer h
    unfold openReader
    rw [consumed_extended h]
    split
    · rfl
    · simp only [Shared.countOpening_extended hid, ih hpayload]
      rcases payload.openReader (shared.countOpening id) with ⟨outcome, opened⟩
      cases outcome with
      | error failure => rfl
      | ok reader =>
        cases reader with
        | none => rfl
        | some reader => rfl

/-! ## What is read -/

variable [ByteSource σ]

/-- The outcomes of readings of these lengths from a reader that is opened now, if there is one. -/
def readings (body : Body σ) (lengths : List Nat) (shared : Shared) :
    Outcome (Option (List (Outcome Bytes))) :=
  match body.openReader shared with
  | (.error failure, _) => .error failure
  | (.ok none, _) => .ok none
  | (.ok (some reader), opened) =>
    .ok (some (Pull.reads reader.layers.pull lengths reader.state opened).1)

/-- What an encoding of the payload returns, seen from the state without the encoding. -/
def encodedReadings (payload : Body σ) (context : ChunkContext) (lengths : List Nat)
    (shared : Shared) : Outcome (Option (List (Outcome Bytes))) :=
  match payload.openReader shared with
  | (.error failure, _) => .error failure
  | (.ok none, _) => .ok none
  | (.ok (some reader), opened) =>
    (ChunkStream.start (some reader.state) context).map fun stream =>
      some (Pull.reads (ChunkStream.pull reader.layers.pull) lengths stream opened).1

/-- An encoded body that was just created reads the same, however many streams there were. What its reader
opens are its own stream, which is new, and those of the payload. -/
theorem readings_chunked_newStream (h : payload.KnownIn shared) (more : List Nat)
    (context : ChunkContext) (lengths : List Nat) :
    (chunked (shared.extended more).newStream.1 payload context).readings lengths
        (shared.extended more).newStream.2
      = payload.encodedReadings context lengths shared := by
  have hcount : (shared.extended (more ++ [0])).countOpening (shared.openings.length + more.length)
      = shared.extended (more ++ [1]) := by
    simp only [Shared.extended, Shared.withOpenings, Shared.countOpening, ← List.append_assoc,
      ← List.length_append]
    rw [List.modify_eq_take_drop, List.take_left, List.drop_left]
    rfl
  -- The stream of the encoding is the last, and was never opened.
  have hunread : (chunked (shared.openings.length + more.length) payload context).consumed
      (shared.extended (more ++ [0])) = false := by
    simp [consumed, streamId?, Shared.wasOpened, Shared.openingCount, Shared.extended,
      Shared.withOpenings]
  have hopened := openReader_extended h (more ++ [1])
  rw [Shared.newStream_extended]
  unfold readings encodedReadings
  rw [openReader, hunread, if_neg Bool.false_ne_true]
  simp only [hcount, hopened]
  rcases payload.openReader shared with ⟨outcome, opened⟩
  cases outcome with
  | error failure => rfl
  | ok reader =>
    cases reader with
    | none => rfl
    | some reader =>
      dsimp only
      cases ChunkStream.start (some reader.state) context with
      | error failure => rfl
      | ok stream =>
        -- The readings go on from a state that differs in opening counts only.
        have hisolated : Isolated (Pull.reads (ChunkStream.pull reader.layers.pull) lengths stream) :=
          .reads (fun n s => .deliver reader.layers.isolated_pull n s []) lengths stream
        obtain ⟨outcomes, stream', shared', hreads, -, hother⟩ := hisolated opened
        show Except.ok (some (Pull.reads (ChunkStream.pull reader.layers.pull) lengths stream
          (opened.withOpenings _)).1) = Except.ok (some _)
        rw [hreads, hother]

end Body

/-! ## Reading to the end -/

namespace Reader

variable {σ : Type} [ByteSource σ]

/-- Reads to the end like `digest`, and keeps the bytes. -/
def drain (reader : Reader σ) (shared : Shared) : Outcome Bytes × Shared :=
  go Sha256.maxLength reader shared []
where
  go : Nat → Reader σ → Shared → Bytes → Outcome Bytes × Shared
    | 0, _, shared, _ => (.error .payloadTooLong, shared)
    | budget + 1, reader, shared, text =>
      match reader.read 65536 shared with
      | (.error failure, _, shared) => (.error failure, shared)
      | (.ok [], _, shared) => (.ok text, shared)
      | (.ok (b :: bytes), reader, shared) => go budget reader shared (text ++ b :: bytes)

/-- The running digest is that of the bytes so far. So reading on and digesting is digesting all of it at
once. -/
theorem digest_go_eq (budget : Nat) (reader : Reader σ) (shared : Shared) (text : Bytes) :
    digest.go budget reader shared (({} : Sha256).update text)
      = ((drain.go budget reader shared text).1.map sha256, (drain.go budget reader shared text).2) := by
  induction budget generalizing reader shared text with
  | zero => rfl
  | succ budget ih =>
    rw [digest.go, drain.go]
    rcases reader.read 65536 shared with ⟨outcome, reader', shared'⟩
    cases outcome with
    | error failure => rfl
    | ok bytes =>
      cases bytes with
      | nil => rfl
      | cons b bytes =>
        dsimp only
        rw [← Sha256.update_append]
        exact ih reader' shared' (text ++ b :: bytes)

/-- The digest of a reader is that of all its bytes, or it fails as reading them fails. -/
theorem digest_eq (reader : Reader σ) (shared : Shared) :
    reader.digest shared = ((reader.drain shared).1.map sha256, (reader.drain shared).2) :=
  digest_go_eq Sha256.maxLength reader shared []

/-- Reading to the end takes back no trailer. -/
theorem settledIn_drain (reader : Reader σ) (shared : Shared) :
    shared.SettledIn (reader.drain shared).2 := by
  -- The induction is on the budget of the loop, for any text collected so far.
  have hgo (budget : Nat) (reader : Reader σ) (shared : Shared) (text : Bytes) :
      shared.SettledIn (drain.go budget reader shared text).2 := by
    induction budget generalizing reader shared text with
    | zero => exact .refl shared
    | succ budget ih =>
      obtain ⟨outcome, state, shared', hpull, hsettled, -⟩ :=
        reader.layers.isolated_pull 65536 reader.state shared
      have hread : reader.read 65536 shared = (outcome, ⟨reader.layers, state⟩, shared') := by
        rw [read, hpull]
      rw [drain.go, hread]
      cases outcome with
      | error failure => exact hsettled
      | ok bytes =>
        cases bytes with
        | nil => exact hsettled
        | cons b bytes => exact hsettled.trans (ih _ shared' _)
  exact hgo Sha256.maxLength reader shared []

end Reader

namespace Body

variable {σ : Type} [ByteSource σ]

/-- All bytes that a reader returns that is opened now, if there is one. -/
def drain (body : Body σ) (shared : Shared) : Outcome (Option Bytes) × Shared :=
  match body.openReader shared with
  | (.error failure, shared) => (.error failure, shared)
  | (.ok none, shared) => (.ok none, shared)
  | (.ok (some reader), shared) => ((reader.drain shared).1.map some, (reader.drain shared).2)

/-- Nor does opening a body and reading it to the end. -/
theorem settledIn_drain (body : Body σ) (shared : Shared) :
    shared.SettledIn (body.drain shared).2 := by
  have hopened : shared.SettledIn (body.openReader shared).2 :=
    .of_trailers (body.trailers_openReader shared)
  unfold drain
  split
  next hopen =>
    rw [hopen] at hopened
    exact hopened
  next hopen =>
    rw [hopen] at hopened
    exact hopened
  next reader opened hopen =>
    rw [hopen] at hopened
    exact hopened.trans (reader.settledIn_drain opened)

/-- Readers return the same bytes, or fail the same, whenever they are opened. -/
def Replays (body : Body σ) (shared : Shared) : Prop :=
  ∀ later, shared.SettledIn later → (body.drain later).1 = (body.drain shared).1

/-- A factory that always returns the same source makes a stream that replays: what the source returns does
not depend on the state. -/
theorem replays_stream (id : StreamId) (length : Option UInt64) (source : σ) (shared : Shared) :
    (stream id length true fun _ => some source).Replays shared := by
  -- The source does not see the state, so two runs of the loop from it go in step.
  have hgo (budget : Nat) (source : σ) (text : Bytes) (a b : Shared) :
      (Reader.drain.go budget ⟨.caller, source⟩ a text).1
        = (Reader.drain.go budget ⟨.caller, source⟩ b text).1 := by
    induction budget generalizing source text with
    | zero => rfl
    | succ budget ih =>
      have hread (state : Shared) : Reader.read 65536 (⟨.caller, source⟩ : Reader σ) state
          = ((ByteSource.read 65536 source).1, ⟨.caller, (ByteSource.read 65536 source).2⟩, state) := rfl
      rw [Reader.drain.go, Reader.drain.go, hread, hread]
      cases (ByteSource.read 65536 source).1 with
      | error failure => rfl
      | ok bytes =>
        cases bytes with
        | nil => rfl
        | cons b bytes => exact ih _ _
  intro later _
  have hopen (state : Shared) : (stream id length true fun _ => some source).openReader state
      = (.ok (some ⟨.caller, source⟩), state.countOpening id) := rfl
  unfold drain
  rw [hopen, hopen]
  exact congrArg (Except.map some) (hgo _ source [] _ _)

end Body

end SigV4
