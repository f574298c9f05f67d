import SigV4.Proofs.ChunkDelivery

/-!
# What happens in a stream

A reading of an aws-chunked stream frames chunks, writes the trailers, and may fail on the way,
because the source does or a trailer. It may then be followed by further readings, which go on from
the state that the failed one left. What happened is kept as a list of events, from which everything
follows that became of the stream:

* **`Pull.HandsOut`**: what a source returns in readings of which some may fail. A source that keeps a
  record of it (`Pull.recording`) says so itself.
* **`deliverEvents`**: the events of one reading. An event of failure has the bytes that the source
  handed out for the chunk that was to be framed.
* **`Accounts`**: the invariant. Bytes pending before and the texts of what was produced are the bytes
  copied and those pending now, the last signature is that of the last segment, and the source handed
  out the data of the events. It holds of a step (`refill_accounts`), of a reading
  (`deliver_accounts`) and of a run (`reads_accounts`), each put together by `Accounts.trans`.
-/

namespace SigV4

/-! ## What a source hands out

Failed readings hand out nothing but may move the source, so they are steps of their own. -/

/-- Readings of some lengths, of which any may fail, lead from one state to the other, and `text` is
what they return. -/
inductive Pull.HandsOut {ρ : Type} (pull : Pull ρ) : ρ → Shared → Bytes → ρ → Shared → Prop where
  | refl (source : ρ) (shared : Shared) : HandsOut pull source shared [] source shared
  | read {source source₁ source' : ρ} {shared shared₁ shared' : Shared} {piece text : Bytes} (n : Nat)
      (hpull : pull n source shared = (.ok piece, source₁, shared₁))
      (hrest : HandsOut pull source₁ shared₁ text source' shared') :
      HandsOut pull source shared (piece ++ text) source' shared'
  | fail {source source₁ source' : ρ} {shared shared₁ shared' : Shared} {text : Bytes} (n : Nat)
      {failure : Failure} (hpull : pull n source shared = (.error failure, source₁, shared₁))
      (hrest : HandsOut pull source₁ shared₁ text source' shared') :
      HandsOut pull source shared text source' shared'

/-- The source together with a record of all bytes that it handed out. -/
def Pull.recording {ρ : Type} (pull : Pull ρ) : Pull (ρ × Bytes) := fun n source shared =>
  let (outcome, source', shared') := pull n source.1 shared
  (outcome, (source', source.2 ++ outcome.toOption.getD []), shared')

namespace Pull.HandsOut

variable {ρ : Type} {pull : Pull ρ} {source source₁ source' : ρ} {shared shared₁ shared' : Shared}
  {text more : Bytes}

theorem trans (h : pull.HandsOut source shared text source₁ shared₁)
    (hmore : pull.HandsOut source₁ shared₁ more source' shared') :
    pull.HandsOut source shared (text ++ more) source' shared' := by
  induction h with
  | refl => exact hmore
  | read n hpull _ ih =>
    rw [List.append_assoc]
    exact .read n hpull (ih hmore)
  | fail n hpull _ ih => exact .fail n hpull (ih hmore)

/-- The record grows by what is handed out. -/
theorem record_eq {source source' : ρ × Bytes}
    (h : pull.recording.HandsOut source shared text source' shared') :
    source'.2 = source.2 ++ text := by
  induction h with
  | refl => simp
  | @read source source₁ source' shared shared₁ shared' piece text n hpull _ ih =>
    have houtcome : (pull n source.1 shared).1 = .ok piece := congrArg Prod.fst hpull
    have hrecord : source.2 ++ (pull n source.1 shared).1.toOption.getD [] = source₁.2 :=
      congrArg (·.2.1.2) hpull
    rw [ih, ← hrecord, houtcome, List.append_assoc]
    rfl
  | @fail source source₁ source' shared shared₁ shared' text n failure hpull _ ih =>
    have houtcome : (pull n source.1 shared).1 = .error failure := congrArg Prod.fst hpull
    have hrecord : source.2 ++ (pull n source.1 shared).1.toOption.getD [] = source₁.2 :=
      congrArg (·.2.1.2) hpull
    rw [ih, ← hrecord, houtcome, List.append_assoc]
    rfl

end Pull.HandsOut

/-! ## Events -/

/-- What a stream does when it needs another segment. -/
inductive ChunkStream.Event where
  /-- A chunk of this data is framed. -/
  | framed (data : Bytes)
  /-- The trailers are written. -/
  | closed (values : List (Bytes × Bytes))
  /-- There is none, since the source failed when it had handed out these bytes, or a trailer
  failed. -/
  | interrupted (taken : Bytes)
deriving DecidableEq, Repr

namespace ChunkStream.Event

/-- What the source handed out for it. -/
def handed : Event → Bytes
  | framed data => data
  | closed _ => []
  | interrupted taken => taken

/-- What it adds to the payload that is sent. -/
def payload : Event → Bytes
  | framed data => data
  | closed _ | interrupted _ => []

end ChunkStream.Event

/-- The segments that are produced in these events, signed from `previous` on. -/
def ChunkContext.produced (c : ChunkContext) (previous : Bytes) :
    List ChunkStream.Event → List Segment
  | [] => []
  | .framed data :: events =>
    let segment := c.chunkSegment previous data
    segment :: c.produced segment.signature events
  | .closed values :: events =>
    let segment := c.trailerSegment previous values
    segment :: c.produced segment.signature events
  | .interrupted _ :: events => c.produced previous events

/-- The segments of later events are signed from the last signature of the earlier ones. -/
theorem ChunkContext.produced_append (c : ChunkContext) (previous : Bytes)
    (events more : List ChunkStream.Event) :
    c.produced previous (events ++ more) = c.produced previous events
      ++ c.produced (lastSignature previous (c.produced previous events)) more := by
  induction events generalizing previous with
  | nil => rfl
  | cons event events ih =>
    cases event with
    | framed data => simp only [List.cons_append, produced, ih, lastSignature_cons]
    | closed values => simp only [List.cons_append, produced, ih, lastSignature_cons]
    | interrupted taken => simp only [List.cons_append, produced, ih]

namespace ChunkStream

variable {ρ : Type}

/-- The bytes that the source hands out while `room` bytes are filled, also where that fails. -/
def fillTaken (pull : Pull ρ) (room : Nat) (source : ρ) (shared : Shared) : Bytes :=
  if room = 0 then
    []
  else
    match pull room source shared with
    | (.error _, _, _) | (.ok [], _, _) => []
    | (.ok (b :: bytes), source, shared) =>
      b :: bytes ++ fillTaken pull (room - (bytes.length + 1)) source shared
termination_by room
decreasing_by omega

/-- What happens in `refill`. -/
def refillEvents (pull : Pull ρ) (s : ChunkStream ρ) (shared : Shared) : List Event :=
  if s.pending.isEmpty then
    match s.phase with
    | .chunks =>
      match (fill pull s.context.chunkSize.toNat s.source shared []).1 with
      | .error _ => [.interrupted (fillTaken pull s.context.chunkSize.toNat s.source shared)]
      | .ok data => [.framed data]
    | .trailers =>
      match s.context.trailers.mapM (·.resolve shared) with
      | .error _ => [.interrupted []]
      | .ok values => [.closed values]
    | .finished | .cancelled => []
  else
    []

/-- What happens in `deliver`. -/
def deliverEvents (pull : Pull ρ) (n : Nat) (s : ChunkStream ρ) (shared : Shared) : List Event :=
  match n with
  | 0 => []
  | n + 1 =>
    refillEvents pull s shared ++
      match refill pull s shared with
      | (.error _, _, _) => []
      | (.ok (), s, shared) =>
        match s.pending with
        | [] => []
        | _ :: pending =>
          deliverEvents pull (n - (pending.take n).length) { s with pending := pending.drop n } shared
termination_by n
decreasing_by omega

/-! ## The invariant

It is stated for any stretch of a run, so that stretches can be put together, and each step, reading
and run is such a stretch. -/

variable {pull : Pull ρ} {s s₁ s' : ChunkStream ρ} {shared shared₁ shared' : Shared}
  {happened more : List Event} {copied further : Bytes}

/-- The events say what became of the stream while `copied` was copied from it. -/
structure Accounts (pull : Pull ρ) (s : ChunkStream ρ) (shared : Shared) (events : List Event)
    (copied : Bytes) (s' : ChunkStream ρ) (shared' : Shared) : Prop where
  context : s'.context = s.context
  bytes : s.pending ++ segmentTexts (s.context.produced s.previous events) = copied ++ s'.pending
  previous : s'.previous = lastSignature s.previous (s.context.produced s.previous events)
  handed : pull.HandsOut s.source shared (events.flatMap Event.handed) s'.source shared'

namespace Accounts

theorem refl (pull : Pull ρ) (s : ChunkStream ρ) (shared : Shared) :
    Accounts pull s shared [] [] s shared :=
  ⟨rfl, by simp [ChunkContext.produced], rfl, .refl _ _⟩

/-- What happens in two stretches, put together. The second one starts from the signature that the first one
left, which is what `ChunkContext.produced_append` asks for. -/
theorem trans (h : Accounts pull s shared happened copied s₁ shared₁)
    (hmore : Accounts pull s₁ shared₁ more further s' shared') :
    Accounts pull s shared (happened ++ more) (copied ++ further) s' shared' := by
  have hproduced := s.context.produced_append s.previous happened more
  rw [← h.previous] at hproduced
  constructor
  · exact hmore.context.trans h.context
  · -- The bytes pending in between are counted once: those left by the first stretch are those that the
    -- second one starts with.
    have hbytes := hmore.bytes
    rw [h.context] at hbytes
    rw [hproduced, segmentTexts_append, ← List.append_assoc, h.bytes, List.append_assoc, hbytes,
      List.append_assoc]
  · rw [hmore.previous, h.context, hproduced, lastSignature_append, h.previous]
  · rw [List.flatMap_append]
    exact h.handed.trans hmore.handed

/-- Copying pending bytes is no event. -/
theorem copy (pull : Pull ρ) (s : ChunkStream ρ) (shared : Shared) (n : Nat) :
    Accounts pull s shared [] (s.pending.take n) { s with pending := s.pending.drop n } shared :=
  ⟨rfl, by simp [ChunkContext.produced], rfl, .refl _ _⟩

end Accounts

/-! ## One step -/

/-- Filling hands out `fillTaken`, and all of it is the data where it succeeds. The induction is on
`room`, as each piece leaves less of it. -/
theorem fill_handsOut (pull : Pull ρ) (room : Nat) (source : ρ) (shared : Shared) (taken : Bytes) :
    ∃ outcome source' shared', fill pull room source shared taken = (outcome, source', shared')
      ∧ pull.HandsOut source shared (fillTaken pull room source shared) source' shared'
      ∧ ∀ data, outcome = .ok data → data = taken.reverse ++ fillTaken pull room source shared := by
  induction room using Nat.strongRecOn generalizing source shared taken with
  | ind room ih =>
    rw [fill, fillTaken]
    split
    next =>
      refine ⟨_, source, shared, rfl, .refl _ _, ?_⟩
      intro data hdata
      simpa using (Except.ok.inj hdata).symm
    next hroom =>
      rcases hpull : pull room source shared with ⟨outcome, source₁, shared₁⟩
      cases outcome with
      | error failure => exact ⟨_, source₁, shared₁, rfl, .fail room hpull (.refl _ _), by simp⟩
      | ok piece =>
        cases piece with
        | nil =>
          refine ⟨_, source₁, shared₁, rfl, .read room hpull (.refl _ _), ?_⟩
          intro data hdata
          simpa using (Except.ok.inj hdata).symm
        | cons b bytes =>
          have hless : room - (bytes.length + 1) < room := by omega
          -- A piece came in, so the rest is filled from where this reading left the source.
          obtain ⟨outcome, source', shared', hfill, hhanded, hdata⟩ :=
            ih _ hless source₁ shared₁ (bytes.reverse ++ b :: taken)
          refine ⟨outcome, source', shared', hfill, .read room hpull hhanded, ?_⟩
          intro data houtcome
          rw [hdata data houtcome]
          simp

/-- **One step.** It copies nothing, and where it fails nothing is pending. A step does something only if
nothing is pending; then it frames a chunk or writes the trailers, or has nothing left to do. -/
theorem refill_accounts (pull : Pull ρ) (s : ChunkStream ρ) (shared : Shared) :
    ∃ outcome s' shared', refill pull s shared = (outcome, s', shared')
      ∧ Accounts pull s shared (refillEvents pull s shared) [] s' shared'
      ∧ ∀ failure, outcome = .error failure → s'.pending = [] := by
  unfold refill refillEvents
  split
  next hpending =>
    rw [List.isEmpty_iff] at hpending
    -- Nothing is pending, so the phase decides what comes next.
    cases hphase : s.phase with
    | chunks =>
      obtain ⟨outcome, source', shared', hfill, hhanded, hdata⟩ :=
        fill_handsOut pull s.context.chunkSize.toNat s.source shared []
      dsimp only
      rw [hfill]
      cases outcome with
      | error failure =>
        refine ⟨_, _, shared', rfl, ⟨rfl, ?_, rfl, ?_⟩, fun _ _ => hpending⟩
        · simp [ChunkContext.produced]
        · simpa [Event.handed] using hhanded
      | ok data =>
        refine ⟨_, _, shared', rfl, ⟨rfl, ?_, rfl, ?_⟩, by simp⟩
        · simp [ChunkContext.produced, hpending, produce]
        · rw [show fillTaken pull _ _ _ = data from (hdata data rfl).symm] at hhanded
          simpa [Event.handed, produce] using hhanded
    | trailers =>
      dsimp only
      cases s.context.trailers.mapM (·.resolve shared) with
      | error failure =>
        refine ⟨_, s, shared, rfl, ⟨rfl, ?_, rfl, .refl _ _⟩, fun _ _ => hpending⟩
        simp [ChunkContext.produced]
      | ok values =>
        refine ⟨_, _, shared, rfl, ⟨rfl, ?_, rfl, .refl _ _⟩, by simp⟩
        simp [ChunkContext.produced, hpending, produce]
    | finished => exact ⟨_, s, shared, rfl, .refl pull s shared, by simp⟩
    | cancelled => exact ⟨_, s, shared, rfl, .refl pull s shared, by simp⟩
  next => exact ⟨_, s, shared, rfl, .refl pull s shared, by simp⟩

/-! ## One reading -/

/-- **One reading.** What it copies is what it returns, and where it fails nothing is pending. The
induction is on `n`, since every round of the loop copies a byte at least. -/
theorem deliver_accounts (pull : Pull ρ) (n : Nat) (s : ChunkStream ρ) (shared : Shared) (out : Bytes) :
    ∃ outcome s' shared' copied, deliver pull n s shared out = (outcome, s', shared')
      ∧ Accounts pull s shared (deliverEvents pull n s shared) copied s' shared'
      ∧ (∀ piece, outcome = .ok piece → piece = out.reverse ++ copied)
      ∧ ∀ failure, outcome = .error failure → s'.pending = [] := by
  induction n using Nat.strongRecOn generalizing s shared out with
  | ind n ih =>
    cases n with
    | zero =>
      rw [deliver, deliverEvents]
      refine ⟨_, s, shared, [], rfl, .refl pull s shared, ?_, by simp⟩
      intro piece hpiece
      simpa using (Except.ok.inj hpiece).symm
    | succ n =>
      obtain ⟨outcome, s₁, shared₁, hrefill, hstep, hfailed⟩ := refill_accounts pull s shared
      rw [deliver, deliverEvents, hrefill]
      cases outcome with
      | error failure =>
        refine ⟨_, s₁, shared₁, [], rfl, ?_, by simp, fun _ _ => hfailed failure rfl⟩
        simpa using hstep
      | ok done =>
        dsimp only
        cases hpending : s₁.pending with
        | nil =>
          -- The stream is at its end.
          refine ⟨_, s₁, shared₁, [], rfl, by simpa using hstep, ?_, by simp⟩
          intro piece hpiece
          simpa using (Except.ok.inj hpiece).symm
        | cons b pending =>
          have hless : n - (pending.take n).length < n + 1 := by omega
          obtain ⟨outcome, s', shared', copied, hdeliver, hrest, hreturned, hfailed'⟩ :=
            ih _ hless { s₁ with pending := pending.drop n } shared₁
              ((pending.take n).reverse ++ b :: out)
          -- A byte and then up to `n` more are copied, which is copying up to `n + 1`.
          have hcopy : Accounts pull s₁ shared₁ [] (b :: pending.take n)
              { s₁ with pending := pending.drop n } shared₁ := by
            simpa [hpending] using Accounts.copy pull s₁ shared₁ (n + 1)
          refine ⟨outcome, s', shared', b :: pending.take n ++ copied, hdeliver, ?_, ?_, hfailed'⟩
          · simpa using hstep.trans (hcopy.trans hrest)
          · intro piece hpiece
            rw [hreturned piece hpiece]
            simp

/-! ## A run of readings -/

/-- A reading of `length` bytes, by the stream and the state that it started from. -/
structure Reading (ρ : Type) where
  length : Nat
  stream : ChunkStream ρ
  shared : Shared

/-- The readings of these lengths, each from where the one before it stopped or failed. -/
def readings (pull : Pull ρ) : List Nat → ChunkStream ρ → Shared → List (Reading ρ)
  | [], _, _ => []
  | n :: lengths, s, shared =>
    let (_, s', shared') := ChunkStream.pull pull n s shared
    ⟨n, s, shared⟩ :: readings pull lengths s' shared'

/-- The first reading, and the others from where it stopped or failed. -/
theorem readings_cons {n : Nat} {outcome : Outcome Bytes}
    (hpull : ChunkStream.pull pull n s shared = (outcome, s', shared')) (lengths : List Nat) :
    readings pull (n :: lengths) s shared = ⟨n, s, shared⟩ :: readings pull lengths s' shared' := by
  simp only [readings, hpull]

namespace Reading

/-- What the reading returned, or why it failed. -/
def outcome (pull : Pull ρ) (r : Reading ρ) : Outcome Bytes :=
  (ChunkStream.pull pull r.length r.stream r.shared).1

/-- What happens in the reading. -/
def events (pull : Pull ρ) (r : Reading ρ) : List Event :=
  deliverEvents pull r.length r.stream r.shared

/-- The segments that the reading produced. -/
def segments (pull : Pull ρ) (r : Reading ρ) : List Segment :=
  r.stream.context.produced r.stream.previous (r.events pull)

/-- The bytes that the reading moved on by: those that it returned, and all that there were if it
failed. -/
def passed (pull : Pull ρ) (r : Reading ρ) : Bytes :=
  match r.outcome pull with
  | .ok piece => piece
  | .error _ => r.stream.pending ++ segmentTexts (r.segments pull)

/-- What the caller got, which is nothing if the reading failed. -/
def returned (pull : Pull ρ) (r : Reading ρ) : Bytes :=
  match r.outcome pull with
  | .ok piece => piece
  | .error _ => []

end Reading

/-- What happens in these readings. -/
def history (pull : Pull ρ) (lengths : List Nat) (s : ChunkStream ρ) (shared : Shared) : List Event :=
  (readings pull lengths s shared).flatMap (·.events pull)

/-- A reading from outside. What it moves on by is what it returned, or all that there was if it failed. -/
theorem pull_accounts (pull : Pull ρ) (n : Nat) (s : ChunkStream ρ) (shared : Shared) :
    ∃ outcome s' shared', ChunkStream.pull pull n s shared = (outcome, s', shared')
      ∧ Accounts pull s shared (deliverEvents pull n s shared) (Reading.passed pull ⟨n, s, shared⟩) s'
        shared' := by
  obtain ⟨outcome, s', shared', copied, hdeliver, haccounts, hreturned, hfailed⟩ :=
    deliver_accounts pull n s shared []
  refine ⟨outcome, s', shared', hdeliver, ?_⟩
  have houtcome : Reading.outcome pull ⟨n, s, shared⟩ = outcome := congrArg Prod.fst hdeliver
  cases outcome with
  | error failure =>
    -- Nothing is pending, so everything that there was has been copied.
    have hcopied := haccounts.bytes
    rw [hfailed failure rfl, List.append_nil] at hcopied
    rw [Reading.passed, houtcome]
    show Accounts pull s shared _ (s.pending ++ segmentTexts _) s' shared'
    rw [Reading.segments, Reading.events, hcopied]
    exact haccounts
  | ok piece =>
    rw [Reading.passed, houtcome]
    show Accounts pull s shared _ piece s' shared'
    rw [hreturned piece rfl]
    exact haccounts

/-- **A run of readings.** Each of them is accounted for and starts from where the one before it stopped or
failed, so the accounts are put together. -/
theorem reads_accounts (pull : Pull ρ) (lengths : List Nat) (s : ChunkStream ρ) (shared : Shared) :
    ∃ s' shared', Pull.reads (ChunkStream.pull pull) lengths s shared
        = ((readings pull lengths s shared).map (·.outcome pull), s', shared')
      ∧ Accounts pull s shared (history pull lengths s shared)
        ((readings pull lengths s shared).flatMap (·.passed pull)) s' shared' := by
  induction lengths generalizing s shared with
  | nil => exact ⟨s, shared, rfl, .refl pull s shared⟩
  | cons n lengths ih =>
    obtain ⟨outcome, s₁, shared₁, hpull, hreading⟩ := pull_accounts pull n s shared
    obtain ⟨s', shared', hreads, hrest⟩ := ih s₁ shared₁
    have hreadings := readings_cons hpull lengths
    refine ⟨s', shared', ?_, ?_⟩
    · simp only [Pull.reads, hpull, hreads, hreadings, List.map_cons, Reading.outcome]
    · rw [history, hreadings]
      exact hreading.trans hrest

/-- The segments of the readings are those of their events. -/
theorem segments_readings (pull : Pull ρ) (lengths : List Nat) (s : ChunkStream ρ) (shared : Shared) :
    (readings pull lengths s shared).flatMap (·.segments pull)
      = s.context.produced s.previous (history pull lengths s shared) := by
  induction lengths generalizing s shared with
  | nil => rfl
  | cons n lengths ih =>
    obtain ⟨outcome, s₁, shared₁, hpull, hreading⟩ := pull_accounts pull n s shared
    -- The next reading goes on from the signature that this one left.
    have hreadings := readings_cons hpull lengths
    rw [history, hreadings, List.flatMap_cons, List.flatMap_cons, ih, ChunkContext.produced_append,
      hreading.context, hreading.previous]
    rfl

end ChunkStream

end SigV4
