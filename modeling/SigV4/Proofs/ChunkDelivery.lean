import SigV4.Proofs.Segments
import SigV4.Proofs.Supply

/-!
# An aws-chunked stream delivers one encoding

Whatever pieces its source hands out and whatever pieces it is asked for, a `ChunkStream` delivers
`ChunkContext.encode` of its payload. The proof follows the segments of the encoding:

* **`Holds`**: the invariant. A stream that holds segments still has these to produce, behind the
  bytes that are pending.
* **`refill_produces`**: with nothing pending, the step produces the first segment that is held, and
  does nothing where none is.
* **`InTime`**: the trailers are asked for at the end of the payload only. It is enough that reading the
  source leads to their values (`LeadsTo`).
* **`ProducesAll.deliver_eq`**: a reading of `n` bytes delivers the next `n` bytes of the pending bytes and
  the texts of the segments, and produces just the segments that start in front of its end (`begun`). That
  is so of every stream that produces its segments one after the other.
* **`Reached.reads_eq`**: the run, by induction on the lengths of the readings.
-/

namespace SigV4

/-! ## Readings one after the other -/

/-- Reads pieces of these lengths one after the other. Returns the outcomes and the next state. -/
def Pull.reads {ρ : Type} (pull : Pull ρ) :
    List Nat → ρ → Shared → List (Outcome Bytes) × ρ × Shared
  | [], source, shared => ([], source, shared)
  | n :: lengths, source, shared =>
    let (outcome, source, shared) := pull n source shared
    let (outcomes, source, shared) := Pull.reads pull lengths source shared
    (outcome :: outcomes, source, shared)

/-! ## The invariant

A stream holds the bytes that are pending and knows, by its phase and what its source has left,
which segments come next. -/

namespace ChunkContext

/-- The segments that are still to come of a payload of which `rest` was not read. -/
def upcoming (c : ChunkContext) (values : List (Bytes × Bytes)) (phase : Phase)
    (previous rest : Bytes) : List Segment :=
  match phase with
  | .chunks => c.segmentsFrom values previous (Chunked.slices c.chunkSize.toNat rest)
  | .trailers => [c.trailerSegment previous values]
  | .finished | .cancelled => []

end ChunkContext

namespace ChunkStream

variable {ρ : Type} {pull : Pull ρ} {c : ChunkContext} {values : List (Bytes × Bytes)}
  {s : ChunkStream ρ} {segments : List Segment} {shared : Shared}

/-- The stream still has these segments to produce. -/
structure Holds (pull : Pull ρ) (c : ChunkContext) (values : List (Bytes × Bytes))
    (s : ChunkStream ρ) (segments : List Segment) : Prop where
  context : s.context = c
  active : s.phase ≠ .cancelled
  upcoming : ∃ rest, Supplies pull s.source rest
    ∧ c.upcoming values s.phase s.previous rest = segments

/-- A stream has nothing more to produce exactly if it is finished. -/
theorem Holds.finished_iff (h : s.Holds pull c values segments) :
    s.phase = .finished ↔ segments = [] := by
  obtain ⟨rest, -, hsegments⟩ := h.upcoming
  have hactive := h.active
  cases hphase : s.phase with
  | chunks =>
    rw [hphase, ChunkContext.upcoming] at hsegments
    simp [← hsegments, ChunkContext.segmentsFrom_ne_nil]
  | trailers =>
    rw [hphase, ChunkContext.upcoming] at hsegments
    simp [← hsegments]
  | finished =>
    rw [hphase, ChunkContext.upcoming] at hsegments
    simp [← hsegments]
  | cancelled => exact absurd hphase hactive

/-! ## Trailers in time

Trailers may be settled by the very reading that ends the payload, so they are asked for only from
then on. -/

/-- The trailers have their values when the stream comes to them; `inv` is what sees to that. -/
structure InTime (inv : ρ → Shared → Prop) (values : List (Bytes × Bytes)) (s : ChunkStream ρ)
    (shared : Shared) : Prop where
  source : inv s.source shared
  ready : s.phase ≠ .chunks → Resolved shared s.context.trailers values

variable {inv : ρ → Shared → Prop}

/-- A step that returned leaves the trailers in time. The chunk without data, behind which they are asked
for, comes from the end of the source, and there reading the source has led to their values. -/
theorem InTime.refill (hlead : LeadsTo pull inv fun shared => Resolved shared s.context.trailers values)
    (hsize : s.context.chunkSize ≠ 0) (h : s.InTime inv values shared) {s' : ChunkStream ρ}
    {shared' : Shared} (hrefill : s.refill pull shared = (.ok (), s', shared')) :
    s'.InTime inv values shared' := by
  have hsize' : 0 < s.context.chunkSize.toNat :=
    Nat.pos_of_ne_zero fun hzero => hsize (UInt64.toNat_inj.mp hzero)
  -- Most of the branches leave the stream as it is.
  have hsame (hs : ((.ok (), s, shared) : Outcome Unit × ChunkStream ρ × Shared)
      = (.ok (), s', shared')) : s'.InTime inv values shared' := by
    obtain ⟨-, rfl, rfl⟩ := Pull.ok_inj hs
    exact h
  unfold ChunkStream.refill at hrefill
  split at hrefill
  · split at hrefill
    next hphase =>
      split at hrefill
      next => exact absurd (Prod.mk.inj hrefill).1 (by simp)
      next data source₁ shared₁ hfill =>
        obtain ⟨-, rfl, rfl⟩ := Pull.ok_inj hrefill
        obtain ⟨hinv, hready⟩ := fill_leadsTo hlead _ h.source hfill
        refine ⟨hinv, fun hlater => hready ?_⟩
        -- A chunk with data leaves the stream among the chunks, where the trailers are not needed.
        cases data with
        | nil => exact Nat.lt_of_lt_of_le hsize' (Nat.le_add_left _ _)
        | cons b data => exact absurd rfl hlater
    next hphase =>
      split at hrefill
      next => exact absurd (Prod.mk.inj hrefill).1 (by simp)
      next =>
        obtain ⟨-, rfl, rfl⟩ := Pull.ok_inj hrefill
        exact ⟨h.source, fun _ => h.ready (by simp [hphase])⟩
    next => exact hsame hrefill
    next => exact hsame hrefill
  · exact hsame hrefill

/-! ## One step -/

theorem refill_of_pending (hpending : s.pending ≠ []) : refill pull s shared = (.ok (), s, shared) := by
  rw [refill, if_neg (by simpa using hpending)]

theorem refill_of_finished (hphase : s.phase = .finished) :
    refill pull s shared = (.ok (), s, shared) := by
  rw [refill, hphase]
  split <;> rfl

/-- What a refilled stream is: the segment is pending and signs the next one, and the others are
still held. -/
structure Produced (pull : Pull ρ) (c : ChunkContext) (values : List (Bytes × Bytes))
    (segment : Segment) (rest : List Segment) (s : ChunkStream ρ) : Prop where
  pending : s.pending = segment.text
  text_ne_nil : segment.text ≠ []
  previous : s.previous = segment.signature
  holds : s.Holds pull c values rest

/-- While chunks are produced, the next one is the next slice of the payload, or the chunk without data at
its end. What is held afterwards are the segments of the rest of the payload, signed from the new chunk. -/
theorem refill_chunks (hsize : c.chunkSize ≠ 0) (hpending : s.pending = []) (hcontext : s.context = c)
    (hphase : s.phase = .chunks) {payload : Bytes} (hsource : Supplies pull s.source payload)
    (hsegments : c.upcoming values .chunks s.previous payload = segments) :
    ∃ segment rest s' shared', segments = segment :: rest
      ∧ refill pull s shared = (.ok (), s', shared')
      ∧ Produced pull c values segment rest s' ∧ shared.SettledIn shared' := by
  subst hcontext
  have hsize' : s.context.chunkSize.toNat ≠ 0 := fun h => hsize (UInt64.toNat_inj.mp h)
  obtain ⟨source', shared', hfill, hsource', hsettled⟩ :=
    fill_eq hsource s.context.chunkSize.toNat shared []
  -- What is framed is the next slice of the payload, whatever pieces the source hands out.
  let segment := s.context.chunkSegment s.previous (payload.take s.context.chunkSize.toNat)
  let s' := { s with source := source' }.produce segment
    (phaseAfter s.context (payload.take s.context.chunkSize.toNat))
  have hrefill : refill pull s shared = (.ok (), s', shared') := by
    rw [refill, if_pos (by simp [hpending]), hphase]
    simp only [hfill]
    rfl
  -- All but the segments that are left is read off the state.
  have hheld (rest : List Segment)
      (hrest : s.context.upcoming values s'.phase segment.signature
        (payload.drop s.context.chunkSize.toNat) = rest)
      (hactive : s'.phase ≠ .cancelled) : Produced pull s.context values segment rest s' :=
    ⟨rfl, s.context.chunkSegment_text_ne_nil _ _, rfl, rfl, hactive, _, hsource', hrest⟩
  refine ⟨segment, _, s', shared', ?_, hrefill, hheld _ rfl ?_, hsettled⟩
  · rw [← hsegments]
    by_cases hpayload : payload = []
    · -- The source is at its end: the chunk without data is followed by the trailers, if any.
      have hnext : s'.phase = if s.context.trailers.isEmpty then .finished else .trailers := by
        simp [s', produce, phaseAfter, hpayload]
      rw [hnext, ChunkContext.upcoming, hpayload, Chunked.slices_nil, ChunkContext.segmentsFrom]
      split
      · simp [segment, hpayload, ChunkContext.upcoming]
      · simp [segment, hpayload, ChunkContext.upcoming]
    · -- The chunk has data, so another one follows it.
      have hdata := Chunked.take_ne_nil hsize' hpayload
      have hnext : s'.phase = .chunks := by
        simp [s', produce, phaseAfter, hdata]
      rw [hnext, ChunkContext.upcoming, Chunked.slices_of_ne_nil hsize' hpayload,
        ChunkContext.segmentsFrom]
      rfl
  · simp only [s', produce, phaseAfter]
    split
    · simp
    · split <;> simp

/-- The trailers are the last segment, once their values are there. The source is not read any more. -/
theorem refill_trailers (hpending : s.pending = []) (hcontext : s.context = c)
    (hphase : s.phase = .trailers) {payload : Bytes} (hsource : Supplies pull s.source payload)
    (hvalues : Resolved shared c.trailers values) :
    ∃ s', refill pull s shared = (.ok (), s', shared)
      ∧ Produced pull c values (c.trailerSegment s.previous values) [] s' := by
  subst hcontext
  let s' := s.produce (s.context.trailerSegment s.previous values) .finished
  refine ⟨s', ?_, rfl, s.context.trailerSegment_text_ne_nil _ _, rfl, rfl, by simp [s', produce],
    payload, hsource, rfl⟩
  rw [refill, if_pos (by simp [hpending]), hphase]
  simp only [hvalues.mapM_resolve]
  rfl

/-- **One step produces the first segment that is held.** There is one case for each phase; a stream that
holds a segment is neither finished nor cancelled. -/
theorem refill_produces (hsize : c.chunkSize ≠ 0) (hpending : s.pending = [])
    (hvalues : s.phase = .trailers → Resolved shared c.trailers values) {segment : Segment}
    {rest : List Segment} (hs : s.Holds pull c values (segment :: rest)) :
    ∃ s' shared', refill pull s shared = (.ok (), s', shared')
      ∧ Produced pull c values segment rest s' ∧ shared.SettledIn shared' := by
  obtain ⟨payload, hsource, hsegments⟩ := hs.upcoming
  -- Frames come from the source and trailers from their values; in the other phases there is no segment
  -- left.
  cases hphase : s.phase with
  | chunks =>
    rw [hphase] at hsegments
    obtain ⟨segment', rest', s', shared', heq, hrefill, hproduced, hsettled⟩ :=
      refill_chunks hsize hpending hs.context hphase hsource hsegments
    obtain ⟨rfl, rfl⟩ := List.cons.inj heq
    exact ⟨s', shared', hrefill, hproduced, hsettled⟩
  | trailers =>
    rw [hphase, ChunkContext.upcoming] at hsegments
    obtain ⟨rfl, rfl⟩ := List.cons.inj hsegments
    obtain ⟨s', hrefill, hproduced⟩ := refill_trailers hpending hs.context hphase hsource (hvalues hphase)
    exact ⟨s', shared, hrefill, hproduced, .refl shared⟩
  | finished =>
    have hnil := hs.finished_iff.mp hphase
    exact absurd hnil (List.cons_ne_nil segment rest)
  | cancelled => exact absurd hphase hs.active

/-! ## One reading

A reading refills and copies until it has what it was asked for. What it copies is the text of the
segments that it begins. -/

/-- One round of the loop with bytes pending copies as many of them as are wanted and goes on for the rest.
-/
theorem deliver_of_pending {n : Nat} {b : UInt8} {pending : Bytes} (hpending : s.pending = b :: pending)
    (out : Bytes) :
    deliver pull (n + 1) s shared out
      = deliver pull (n - (pending.take n).length) { s with pending := pending.drop n } shared
        ((pending.take n).reverse ++ b :: out) := by
  rw [deliver, refill_of_pending (by simp [hpending])]
  simp only [hpending]

/-- A step that leaves bytes pending can be made before the reading, as the reading would make it. -/
theorem deliver_of_refill {n : Nat} {s' : ChunkStream ρ} {shared' : Shared}
    (hrefill : refill pull s shared = (.ok (), s', shared')) (hpending : s'.pending ≠ [])
    (out : Bytes) :
    deliver pull (n + 1) s shared out = deliver pull (n + 1) s' shared' out := by
  conv_rhs => rw [deliver, refill_of_pending hpending]
  rw [deliver, hrefill]

/-- Streams of which `held` says what segments they have to produce: they produce one after the other, and
behind the last one a step does nothing more than `stop`. -/
structure ProducesAll (pull : Pull ρ) (stop : Outcome Unit)
    (held : ChunkStream ρ → Shared → List Segment → Prop) : Prop where
  next : ∀ {s : ChunkStream ρ} {shared : Shared} {segment : Segment} {rest : List Segment},
    s.pending = [] → held s shared (segment :: rest) →
    ∃ s' shared', refill pull s shared = (.ok (), s', shared') ∧ s'.pending = segment.text
      ∧ segment.text ≠ [] ∧ s'.previous = segment.signature ∧ held s' shared' rest
      ∧ shared.SettledIn shared'
  stop : ∀ {s : ChunkStream ρ} {shared : Shared}, s.pending = [] → held s shared [] →
    refill pull s shared = (stop, s, shared)
  copy : ∀ {s : ChunkStream ρ} {shared : Shared} {segments : List Segment} (pending : Bytes),
    held s shared segments → held { s with pending } shared segments

/-- What a reading of `n` bytes makes of a stream that is said to have these segments. -/
structure Moved (held : ChunkStream ρ → Shared → List Segment → Prop) (n : Nat) (s : ChunkStream ρ)
    (segments : List Segment) (s' : ChunkStream ρ) (shared' : Shared) : Prop where
  held : ∃ rest, segments = Segment.begun (n - s.pending.length) segments ++ rest
    ∧ held s' shared' rest
  pending : s'.pending
    = (s.pending ++ segmentTexts (Segment.begun (n - s.pending.length) segments)).drop n
  previous : s'.previous
    = lastSignature s.previous (Segment.begun (n - s.pending.length) segments)

variable {held : ChunkStream ρ → Shared → List Segment → Prop} {stop : Outcome Unit}

/-- Copying pending bytes and reading the rest of what is wanted is one reading. The segments that are begun
are counted from the end of the pending bytes, which is where it was. -/
theorem Moved.of_copied {n : Nat} {s' : ChunkStream ρ} {shared' : Shared} {b : UInt8} {pending : Bytes}
    (hpending : s.pending = b :: pending)
    (h : Moved held (n - (pending.take n).length) { s with pending := pending.drop n } segments s'
      shared') : Moved held (n + 1) s segments s' shared' := by
  obtain ⟨hheld, hpending', hprevious⟩ := h
  have hbegun : n - (pending.take n).length - (pending.drop n).length = n + 1 - s.pending.length := by
    rw [hpending, List.length_take, List.length_drop, List.length_cons]
    omega
  rw [hbegun] at hheld hpending' hprevious
  refine ⟨hheld, ?_, hprevious⟩
  rw [hpending', Bytes.drop_append_rest, hpending, List.cons_append, List.drop_succ_cons]

/-- Where nothing is pending, a reading starts with the first segment, and the segments begun are this one
and those that the rest of the reading begins. -/
theorem Moved.of_produced {n : Nat} {segment : Segment} {rest : List Segment} {s₁ s' : ChunkStream ρ}
    {shared' : Shared} (hpending : s.pending = []) (hpending₁ : s₁.pending = segment.text)
    (hprevious₁ : s₁.previous = segment.signature) (h : Moved held (n + 1) s₁ rest s' shared') :
    Moved held (n + 1) s (segment :: rest) s' shared' := by
  have hbegun : Segment.begun (n + 1 - s.pending.length) (segment :: rest)
      = segment :: Segment.begun (n + 1 - s₁.pending.length) rest := by
    rw [hpending, hpending₁, List.length_nil, Nat.sub_zero, Segment.begun_cons (Nat.succ_ne_zero n)]
  refine ⟨?_, ?_, ?_⟩
  · obtain ⟨others, hothers, hheld⟩ := h.held
    refine ⟨others, ?_, hheld⟩
    rw [hbegun, List.cons_append, ← hothers]
  · rw [h.pending, hbegun, hpending, hpending₁, segmentTexts_cons, List.nil_append]
  · rw [h.previous, hbegun, hprevious₁, lastSignature_cons]

/-- **One reading.** It returns the next `n` bytes of what is pending and of the segments, and stops behind
them. The induction is on `n`, since every round of the loop copies at least one byte. -/
theorem ProducesAll.deliver_eq (hproduces : ProducesAll pull stop held) (n : Nat)
    (hs : held s shared segments) (out : Bytes) :
    ∃ s' shared', deliver pull n s shared out
        = ((Bytes.pieceBefore stop n (s.pending ++ segmentTexts segments)).map (out.reverse ++ ·), s',
          shared')
      ∧ Moved held n s segments s' shared' ∧ shared.SettledIn shared' := by
  induction n using Nat.strongRecOn generalizing s segments shared out with
  | ind n ih =>
    cases n with
    | zero =>
      refine ⟨s, shared, ?_, ⟨⟨segments, by simp, hs⟩, by simp, by simp⟩, .refl shared⟩
      rw [Bytes.pieceBefore_zero]
      simp [deliver, Except.map]
    | succ n =>
      -- With bytes pending the reading copies some of them and goes on for the rest.
      have hcopy : ∀ {s : ChunkStream ρ} {segments : List Segment} {shared : Shared} {b : UInt8}
          {pending : Bytes}, held s shared segments → s.pending = b :: pending →
          ∃ s' shared', deliver pull (n + 1) s shared out
              = ((Bytes.pieceBefore stop (n + 1) (s.pending ++ segmentTexts segments)).map
                (out.reverse ++ ·), s', shared')
            ∧ Moved held (n + 1) s segments s' shared' ∧ shared.SettledIn shared' := by
        intro s segments shared b pending hs hpending
        have hless : n - (pending.take n).length < n + 1 := by omega
        obtain ⟨s', shared', hdeliver, hmoved, hsettled⟩ :=
          ih _ hless (hproduces.copy (pending.drop n) hs) ((pending.take n).reverse ++ b :: out)
        refine ⟨s', shared', ?_, hmoved.of_copied hpending, hsettled⟩
        rw [deliver_of_pending hpending, hdeliver, hpending, Bytes.pieceBefore_cons_append]
        cases Bytes.pieceBefore stop (n - (pending.take n).length)
            (pending.drop n ++ segmentTexts segments) with
        | error failure => rfl
        | ok piece => simp [Except.map]
      cases hpending : s.pending with
      | cons b pending =>
        rw [← hpending]
        exact hcopy hs hpending
      | nil =>
        cases segments with
        | nil =>
          -- Nothing is pending or held: the reading stops with what it has.
          refine ⟨s, shared, ?_, ⟨⟨[], by simp, hs⟩, by simp [hpending], by simp⟩, .refl shared⟩
          rw [deliver, hproduces.stop hpending hs]
          cases stop with
          | error failure => rfl
          | ok done => simp [hpending, Bytes.pieceBefore, Except.map]
        | cons segment rest =>
          -- The first segment becomes pending, and the reading goes on as with any pending bytes.
          obtain ⟨s₁, shared₁, hrefill, hpending₁, hne, hprevious₁, hs₁, hsettled⟩ :=
            hproduces.next hpending hs
          obtain ⟨b, pending, htext⟩ := List.exists_cons_of_ne_nil hne
          obtain ⟨s', shared', hdeliver, hmoved, hsettled'⟩ := hcopy hs₁ (hpending₁.trans htext)
          refine ⟨s', shared', ?_, hmoved.of_produced hpending hpending₁ hprevious₁,
            hsettled.trans hsettled'⟩
          rw [deliver_of_refill hrefill (by simp [hpending₁, htext]), hdeliver, hpending₁]
          rfl

/-- With its trailers in time a stream produces all segments that it holds, and stops behind them without a
failure. -/
theorem producesAll_of_inTime (hlead : LeadsTo pull inv fun shared => Resolved shared c.trailers values)
    (hsize : c.chunkSize ≠ 0) :
    ProducesAll pull (.ok ()) fun s shared segments =>
      s.InTime inv values shared ∧ s.Holds pull c values segments where
  next := by
    rintro s shared segment rest hpending ⟨hready, hs⟩
    have hcontext := hs.context
    obtain ⟨s', shared', hrefill, hproduced, hsettled⟩ :=
      refill_produces hsize hpending (fun hphase => hcontext ▸ hready.ready (by simp [hphase])) hs
    have hready' := hready.refill (by rwa [hcontext]) (by rwa [hcontext]) hrefill
    exact ⟨s', shared', hrefill, hproduced.pending, hproduced.text_ne_nil, hproduced.previous,
      ⟨hready', hproduced.holds⟩, hsettled⟩
  stop := fun _ hs => refill_of_finished (hs.2.finished_iff.mpr rfl)
  copy := fun _ ⟨hready, hs⟩ =>
    ⟨⟨hready.source, hready.ready⟩, hs.context, hs.active, hs.upcoming⟩

/-! ## A run of readings -/

/-- Where a stream that is said to have these segments stands after readings of `n` bytes altogether. -/
structure Stands (held : ChunkStream ρ → Shared → List Segment → Prop) (seed : Bytes)
    (segments : List Segment) (n : Nat) (s : ChunkStream ρ) (shared : Shared) : Prop where
  held : ∃ rest, segments = Segment.begun n segments ++ rest ∧ held s shared rest
  pending : s.pending = (segmentTexts (Segment.begun n segments)).drop n
  previous : s.previous = lastSignature seed (Segment.begun n segments)

/-- A reading moves a stream on by its length, also if it fails. A failing reading has moved the stream past
what it would have returned. -/
theorem ProducesAll.pull_eq (hproduces : ProducesAll pull stop held) {seed : Bytes} {n : Nat}
    (hs : Stands held seed segments n s shared) (m : Nat) :
    ∃ s' shared', ChunkStream.pull pull m s shared
        = (Bytes.pieceBefore stop m ((segmentTexts segments).drop n), s', shared')
      ∧ Stands held seed segments (n + m) s' shared' ∧ shared.SettledIn shared' := by
  obtain ⟨rest, hsegments, hrest⟩ := hs.held
  obtain ⟨s', shared', hdeliver, hmoved, hsettled⟩ := hproduces.deliver_eq m hrest []
  have hpending : s.pending.length = (segmentTexts (Segment.begun n segments)).length - n := by
    rw [hs.pending, List.length_drop]
  -- What is begun altogether are the segments begun before and those of this reading.
  have hbegun : Segment.begun (n + m) segments
      = Segment.begun n segments ++ Segment.begun (m - s.pending.length) rest := by
    rw [hpending]
    exact Segment.begun_add hsegments m
  -- Bytes of segments that were begun before are pending, and the rest was not begun.
  have hleft (others : List Segment) (hothers : rest = [] → others = []) :
      s.pending ++ segmentTexts others
        = (segmentTexts (Segment.begun n segments ++ others)).drop n := by
    rw [hs.pending]
    exact Segment.drop_begun_append hsegments hothers
  refine ⟨s', shared', ?_, ⟨?_, ?_, ?_⟩, hsettled⟩
  · rw [ChunkStream.pull, hdeliver, hleft rest id, ← hsegments]
    cases Bytes.pieceBefore stop m ((segmentTexts segments).drop n) with
    | error failure => rfl
    | ok piece => rfl
  · obtain ⟨others, hothers, hheld⟩ := hmoved.held
    refine ⟨others, ?_, hheld⟩
    rw [hbegun, List.append_assoc, ← hothers]
    exact hsegments
  · rw [hmoved.pending, hleft _ (by rintro rfl; simp), List.drop_drop, hbegun]
  · rw [hmoved.previous, hbegun, lastSignature_append, hs.previous]

/-- Readings of any lengths return what is left of the text, and stop behind it. The induction is on the
lengths. -/
theorem ProducesAll.reads_eq (hproduces : ProducesAll pull stop held) {seed : Bytes} {n : Nat}
    (hs : Stands held seed segments n s shared) (lengths : List Nat) :
    ∃ s' shared', Pull.reads (ChunkStream.pull pull) lengths s shared
        = (Bytes.piecesBefore stop lengths ((segmentTexts segments).drop n), s', shared')
      ∧ Stands held seed segments (n + lengths.sum) s' shared' ∧ shared.SettledIn shared' := by
  induction lengths generalizing n s shared with
  | nil => exact ⟨s, shared, rfl, hs, .refl shared⟩
  | cons m lengths ih =>
    obtain ⟨s₁, shared₁, hpull, hs₁, hsettled⟩ := hproduces.pull_eq hs m
    obtain ⟨s', shared', hreads, hs', hsettled'⟩ := ih hs₁
    refine ⟨s', shared', ?_, ?_, hsettled.trans hsettled'⟩
    · simp only [Pull.reads, hpull, hreads, Bytes.piecesBefore, List.drop_drop]
    · rwa [List.sum_cons, ← Nat.add_assoc]

/-- Where a stream stands after readings of `n` bytes altogether. -/
structure Reached (pull : Pull ρ) (c : ChunkContext) (values : List (Bytes × Bytes))
    (segments : List Segment) (n : Nat) (s : ChunkStream ρ) : Prop where
  holds : ∃ rest, segments = Segment.begun n segments ++ rest ∧ s.Holds pull c values rest
  pending : s.pending = (segmentTexts (Segment.begun n segments)).drop n
  previous : s.previous = lastSignature c.seed (Segment.begun n segments)

/-- A reading moves a stream on by its length and does not fail, as the trailers are in time. -/
theorem Reached.pull_inTime
    (hlead : LeadsTo pull inv fun shared => Resolved shared c.trailers values) (hsize : c.chunkSize ≠ 0)
    {n : Nat} (hs : s.Reached pull c values segments n) (hready : s.InTime inv values shared) (m : Nat) :
    ∃ s' shared', ChunkStream.pull pull m s shared
        = (.ok (((segmentTexts segments).drop n).take m), s', shared')
      ∧ s'.Reached pull c values segments (n + m) ∧ s'.InTime inv values shared'
      ∧ shared.SettledIn shared' := by
  obtain ⟨rest, hsegments, hrest⟩ := hs.holds
  obtain ⟨s', shared', hpull, hstands, hsettled⟩ := (producesAll_of_inTime hlead hsize).pull_eq
    ⟨⟨rest, hsegments, hready, hrest⟩, hs.pending, hs.previous⟩ m
  obtain ⟨others, hothers, hready', hs'⟩ := hstands.held
  rw [Bytes.pieceBefore_ok] at hpull
  exact ⟨s', shared', hpull, ⟨⟨others, hothers, hs'⟩, hstands.pending, hstands.previous⟩, hready',
    hsettled⟩

/-- Trailers that are resolved beforehand are in time, and any source keeps them so, since settled trailers
stay settled. -/
theorem Reached.pull_eq (hsize : c.chunkSize ≠ 0) {n : Nat} (hs : s.Reached pull c values segments n)
    (hvalues : Resolved shared c.trailers values) (m : Nat) :
    ∃ s' shared', ChunkStream.pull pull m s shared
        = (.ok (((segmentTexts segments).drop n).take m), s', shared')
      ∧ s'.Reached pull c values segments (n + m) ∧ shared.SettledIn shared' := by
  -- That the source is supplied is part of the invariant, so that every reading of it settles something or
  -- nothing, and takes nothing back.
  have hlead : LeadsTo pull (fun source shared => (∃ rest, Supplies pull source rest)
      ∧ Resolved shared c.trailers values) fun shared => Resolved shared c.trailers values := by
    rintro n source shared piece source' shared' hn ⟨⟨rest, hsource⟩, hvalues⟩ hpull
    obtain ⟨piece₁, rest₁, source₁, shared₁, hpull₁, -, -, -, hsource₁, hsettled⟩ :=
      hsource.pull hn shared
    obtain ⟨rfl, rfl, rfl⟩ := Pull.ok_inj (hpull.symm.trans hpull₁)
    have hvalues' := hvalues.mono hsettled
    exact ⟨⟨⟨rest₁, hsource₁⟩, hvalues'⟩, fun _ => hvalues'⟩
  obtain ⟨held, -, hheld⟩ := hs.holds
  obtain ⟨rest, hsource, -⟩ := hheld.upcoming
  have hcontext := hheld.context
  have hready : s.InTime (fun source shared => (∃ rest, Supplies pull source rest)
      ∧ Resolved shared c.trailers values) values shared :=
    ⟨⟨⟨rest, hsource⟩, hvalues⟩, fun _ => by rwa [hcontext]⟩
  obtain ⟨s', shared', hpull, hs', -, hsettled⟩ := hs.pull_inTime hlead hsize hready m
  exact ⟨s', shared', hpull, hs', hsettled⟩

/-- Readings of any lengths return the pieces of the text that is left. The induction is on the lengths, and
each reading leaves the trailers resolved for the next. -/
theorem Reached.reads_eq (hsize : c.chunkSize ≠ 0) {n : Nat}
    (hs : s.Reached pull c values segments n) (hvalues : Resolved shared c.trailers values)
    (lengths : List Nat) :
    ∃ s' shared', Pull.reads (ChunkStream.pull pull) lengths s shared
        = ((Bytes.pieces lengths ((segmentTexts segments).drop n)).map .ok, s', shared')
      ∧ s'.Reached pull c values segments (n + lengths.sum) ∧ shared.SettledIn shared' := by
  induction lengths generalizing n s shared with
  | nil => exact ⟨s, shared, rfl, hs, .refl shared⟩
  | cons m lengths ih =>
    obtain ⟨s₁, shared₁, hpull, hs₁, hsettled⟩ := hs.pull_eq hsize hvalues m
    obtain ⟨s', shared', hreads, hs', hsettled'⟩ := ih hs₁ (hvalues.mono hsettled)
    refine ⟨s', shared', ?_, ?_, hsettled.trans hsettled'⟩
    · simp only [Pull.reads, hpull, hreads, Bytes.pieces, List.map_cons, List.drop_drop]
    · rwa [List.sum_cons, ← Nat.add_assoc]

/-- A stream that was just started. Starting fails for chunks of no size only, so what is known of the
stream is all of its fields. -/
theorem start_ok {source : ρ} {stream : ChunkStream ρ} (h : start (some source) c = .ok stream) :
    stream = { source, context := c, previous := c.seed } := by
  unfold start at h
  dsimp only at h
  split at h
  · simp at h
  · exact (Except.ok.inj h).symm

/-- A stream that was just started has the whole encoding before it: no segment is begun, and its signature
is the seed. -/
theorem start_reached (values : List (Bytes × Bytes)) {source : ρ} {payload : Bytes}
    (hsource : Supplies pull source payload) (hsize : c.chunkSize ≠ 0) :
    ∃ stream, start (some source) c = .ok stream
      ∧ stream.Reached pull c values (c.segments values payload) 0 := by
  refine ⟨{ source, context := c, previous := c.seed }, by rw [start, if_neg hsize], ?_, ?_, ?_⟩
  · exact ⟨c.segments values payload, by simp, rfl, by simp, payload, hsource, rfl⟩
  · simp
  · simp

/-- A cancelled stream delivers nothing more and stays as it is, whatever it is asked for. -/
theorem pull_cancel (s : ChunkStream ρ) (n : Nat) :
    ChunkStream.pull pull n s.cancel shared = (.ok [], s.cancel, shared) := by
  cases n with
  | zero => simp [ChunkStream.pull, deliver]
  | succ n =>
    have hrefill : refill pull s.cancel shared = (.ok (), s.cancel, shared) := by
      simp [refill, cancel]
    rw [ChunkStream.pull, deliver, hrefill]
    simp [cancel]

/-! ## The stream and its encoding -/

/-- Signed chunks of three bytes and a trailer. -/
def sampleContext : ChunkContext where
  key := ⟨ascii "key"⟩
  amzDate := ascii "20130524T000000Z"
  scope := ascii "20130524/us-east-1/s3/aws4_request"
  seed := ascii "seed"
  signed := true
  chunkSize := 3
  trailers := [⟨ascii "x-check", 0⟩]

/-- What readings of these lengths return from a stream on `payload`, and the state `s` that they
leave it in. -/
structure Delivers (pull : Pull ρ) (c : ChunkContext) (values : List (Bytes × Bytes))
    (payload : Bytes) (shared : Shared) (stream : ChunkStream ρ) (lengths : List Nat)
    (s : ChunkStream ρ) (shared' : Shared) : Prop where
  /-- Each reading returns as many of the next bytes of the encoding as it asked for, if there are
  so many. -/
  reads : Pull.reads (ChunkStream.pull pull) lengths stream shared
    = ((Bytes.pieces lengths (c.encode values payload)).map .ok, s, shared')
  /-- The stream holds the signature of the last segment that was begun, at first the seed. -/
  previous : s.previous
    = lastSignature c.seed (Segment.begun lengths.sum (c.segments values payload))
  unsigned : c.signed = false → s.previous = c.seed
  /-- The stream is finished once the last segment was begun. -/
  finished : s.phase = .finished
    ↔ Segment.begun lengths.sum (c.segments values payload) = c.segments values payload
  /-- It can be cancelled at any time, after which it delivers nothing. -/
  cancelled : s.cancel.phase = .cancelled ∧ s.cancel.previous = s.previous
    ∧ ∀ n, ChunkStream.pull pull n s.cancel shared' = (.ok [], s.cancel, shared')

/-- **A stream delivers one encoding.** Readings of any lengths return the pieces of `ChunkContext.encode`,
whatever pieces the source hands out. The signature that the stream holds is that of the last segment that
was begun, and the stream is finished once all are. -/
theorem delivers_encoding {source : ρ} {payload : Bytes} (hsource : Supplies pull source payload)
    (hsize : c.chunkSize ≠ 0) (hvalues : Resolved shared c.trailers values) :
    ∃ stream, start (some source) c = .ok stream ∧ ∀ lengths : List Nat, ∃ s shared',
      Delivers pull c values payload shared stream lengths s shared' := by
  obtain ⟨stream, hstart, hstream⟩ := start_reached values hsource hsize
  refine ⟨stream, hstart, fun lengths => ?_⟩
  obtain ⟨s, shared', hreads, hs, -⟩ := hstream.reads_eq hsize hvalues lengths
  rw [Nat.zero_add] at hs
  obtain ⟨rest, hsegments, hrest⟩ := hs.holds
  refine ⟨s, shared', hreads, hs.previous, ?_, ?_, rfl, rfl, pull_cancel s⟩
  · -- Without signed chunks every segment has the signature of the one before, which is the seed in the
    -- end.
    intro hsigned
    rw [hs.previous]
    refine lastSignature_of_forall fun segment hsegment => ?_
    have hmem : segment ∈ c.segments values payload := by
      rw [hsegments]
      exact List.mem_append_left rest hsegment
    exact ChunkContext.signature_of_mem_segmentsFrom hsigned hmem
  · rw [hrest.finished_iff]
    constructor
    · rintro rfl
      rw [List.append_nil] at hsegments
      exact hsegments.symm
    · intro hall
      rw [hall] at hsegments
      exact List.self_eq_append_right.mp hsegments

/-- A payload that ends with its second chunk and looks like a frame, with a trailer behind it, is delivered
so. -/
theorem delivers_encoding_of_two_chunks :
    Supplies ByteSource.pull (MemorySource.mk (ascii "1\r\na\r\n")) (ascii "1\r\na\r\n")
    ∧ Resolved { trailers := [.settled (.ok (ascii "abc"))] } sampleContext.trailers
      [(ascii "x-check", ascii "abc")]
    ∧ ∃ stream, start (some (MemorySource.mk (ascii "1\r\na\r\n"))) sampleContext = .ok stream
      ∧ ∀ lengths : List Nat, ∃ s shared',
        Delivers ByteSource.pull sampleContext [(ascii "x-check", ascii "abc")]
          (ascii "1\r\na\r\n") { trailers := [.settled (.ok (ascii "abc"))] } stream lengths s
          shared' := by
  have hvalues : Resolved { trailers := [.settled (.ok (ascii "abc"))] } sampleContext.trailers
      [(ascii "x-check", ascii "abc")] := .cons ⟨rfl, rfl, by decide⟩ .nil
  exact ⟨supplies_memory _, hvalues, delivers_encoding (supplies_memory _) (by decide) hvalues⟩

end ChunkStream

end SigV4
