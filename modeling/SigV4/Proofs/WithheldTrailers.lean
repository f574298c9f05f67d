import SigV4.Proofs.ChunkDelivery

/-!
# Trailers that cannot be sent

A trailer that settled to a failure, or to text that does not stay on its line, cannot be sent. A stream
with such a trailer delivers the frames of its payload and then fails:

* **`FirstBad`**: which trailer the stream fails with. It is the first bad one in the order of declaration,
  however many good ones stand before and behind it (`FirstBad.mapM_resolve`).
* **`ChunkContext.segmentsFrom_eq`**: the frames stand in front of the trailers in every encoding.
* **`producesAll_of_firstBad`**: the step. The stream produces its frames one after the other and then fails,
  and stays as it is. So nothing of the trailers is ever pending.
* **`withholds_trailers`**: the run. A reading returns bytes of the frames if there are as many as it asked
  for, and fails otherwise.
-/

namespace SigV4

/-! ## Bad trailers

Trailers are written in the order of their declaration, so the first bad one is the one that is met
with. -/

/-- The trailer has settled, and sending it fails with this failure. -/
inductive Trailer.Bad (shared : Shared) (trailer : Trailer) : Failure → Prop where
  | failed {failure : Failure} (hvalue : shared.trailer? trailer.value = some (.error failure)) :
      Bad shared trailer failure
  | lineBreak {value : Bytes} (hvalue : shared.trailer? trailer.value = some (.ok value))
      (hbreak : hasLineBreak value = true) :
      Bad shared trailer (.canonicalization (.trailerLineBreak trailer.name))

/-- The first of the trailers that is bad fails with this failure. -/
inductive FirstBad (shared : Shared) (failure : Failure) : List Trailer → Prop where
  | here {trailer : Trailer} {trailers : List Trailer} (hbad : trailer.Bad shared failure) :
      FirstBad shared failure (trailer :: trailers)
  | later {trailer : Trailer} {trailers : List Trailer} {value : Bytes}
      (hvalue : shared.trailer? trailer.value = some (.ok value)) (hplain : hasLineBreak value = false)
      (hrest : FirstBad shared failure trailers) : FirstBad shared failure (trailer :: trailers)

/-- A trailer that is bad stays bad, as it has settled. -/
theorem Trailer.Bad.mono {shared later : Shared} {trailer : Trailer} {failure : Failure}
    (h : trailer.Bad shared failure) (hlater : shared.SettledIn later) : trailer.Bad later failure := by
  cases h with
  | failed hvalue => exact .failed (hlater _ _ hvalue)
  | lineBreak hvalue hbreak => exact .lineBreak (hlater _ _ hvalue) hbreak

/-- Writing a bad trailer fails with what is wrong with it. -/
theorem Trailer.Bad.resolve {shared : Shared} {trailer : Trailer} {failure : Failure}
    (h : trailer.Bad shared failure) : trailer.resolve shared = .error failure := by
  cases h with
  | failed hvalue => rw [Trailer.resolve, hvalue]
  | lineBreak hvalue hbreak =>
    rw [Trailer.resolve, hvalue]
    exact if_pos hbreak

namespace FirstBad

variable {shared later : Shared} {failure : Failure} {trailers : List Trailer}

/-- What others settle later does not change which trailer is the first bad one. -/
theorem mono (h : FirstBad shared failure trailers) (hlater : shared.SettledIn later) :
    FirstBad later failure trailers := by
  induction h with
  | here hbad => exact .here (hbad.mono hlater)
  | later hvalue hplain _ ih => exact .later (hlater _ _ hvalue) hplain ih

/-- Writing the trailers fails with the first bad one. Those in front of it can be written, and those behind
it are not looked at. -/
theorem mapM_resolve (h : FirstBad shared failure trailers) :
    trailers.mapM (·.resolve shared) = .error failure := by
  induction h with
  | here hbad =>
    rw [List.mapM_cons, hbad.resolve]
    rfl
  | @later trailer trailers value hvalue hplain _ ih =>
    have hresolve : trailer.resolve shared = .ok (trailer.name, value) := by
      rw [Trailer.resolve, hvalue]
      exact if_neg (Bool.eq_false_iff.mp hplain)
    rw [List.mapM_cons, hresolve, ih]
    rfl

/-- Behind trailers that are resolved, the first bad one is the first of all. -/
theorem of_resolved {others : List Trailer} {values : List (Bytes × Bytes)}
    (hothers : Resolved shared others values) (h : FirstBad shared failure trailers) :
    FirstBad shared failure (others ++ trailers) := by
  induction hothers with
  | nil => exact h
  | cons hentry _ ih => exact .later hentry.2.1 hentry.2.2 ih

theorem ne_nil (h : FirstBad shared failure trailers) : trailers ≠ [] := by
  cases h with
  | here => exact List.cons_ne_nil _ _
  | later => exact List.cons_ne_nil _ _

end FirstBad

/-- Of settled trailers with a bad one among them, one is the first that is bad. The induction is on the
trailers: the first of them is bad, or it is good and the bad one is behind it. -/
theorem exists_firstBad {shared : Shared} {trailers : List Trailer}
    (hsettled : ∀ trailer ∈ trailers, (shared.trailer? trailer.value).isSome)
    (hbad : ∃ trailer ∈ trailers, ∃ failure, trailer.Bad shared failure) :
    ∃ failure, FirstBad shared failure trailers := by
  induction trailers with
  | nil =>
    obtain ⟨trailer, hmem, -⟩ := hbad
    exact absurd hmem List.not_mem_nil
  | cons first trailers ih =>
    obtain ⟨outcome, hvalue⟩ := Option.isSome_iff_exists.mp (hsettled first List.mem_cons_self)
    cases outcome with
    | error failure => exact ⟨failure, .here (.failed hvalue)⟩
    | ok value =>
      -- A trailer that settled to a value is bad if the value has a line break.
      cases hbreak : hasLineBreak value with
      | true => exact ⟨_, .here (.lineBreak hvalue hbreak)⟩
      | false =>
        -- The first trailer is good, so the bad one is behind it.
        have hrest : ∃ trailer ∈ trailers, ∃ failure, trailer.Bad shared failure := by
          obtain ⟨trailer, hmem, failure, hfailure⟩ := hbad
          rcases List.mem_cons.mp hmem with rfl | hmem
          · cases hfailure with
            | failed hother => simp [hvalue] at hother
            | lineBreak hother hother' =>
              obtain rfl := Except.ok.inj (Option.some.inj (hvalue.symm.trans hother))
              exact absurd hother' (Bool.eq_false_iff.mp hbreak)
          · exact ⟨trailer, hmem, failure, hfailure⟩
        obtain ⟨failure, hfirst⟩ :=
          ih (fun other hother => hsettled other (List.mem_cons_of_mem first hother)) hrest
        exact ⟨failure, .later hvalue hbreak hfirst⟩

/-! ## The frames of a payload

All frames stand in front of the trailers and are signed before these are known. -/

namespace ChunkContext

variable {c : ChunkContext}

/-- The frames for chunks of this data and the frame that ends the payload, signed from `previous` on. -/
def framesFrom (c : ChunkContext) (previous : Bytes) : List Bytes → List Segment
  | data :: rest =>
    let segment := c.chunkSegment previous data
    segment :: c.framesFrom segment.signature rest
  | [] => [c.chunkSegment previous []]

/-- All that is sent of a payload in front of the trailers. -/
def frames (c : ChunkContext) (payload : Bytes) : List Segment :=
  c.framesFrom c.seed (Chunked.slices c.chunkSize.toNat payload)

/-- The frame that ends the payload is always there. -/
theorem framesFrom_ne_nil (c : ChunkContext) (previous : Bytes) (slices : List Bytes) :
    c.framesFrom previous slices ≠ [] := by
  cases slices with
  | nil => exact List.cons_ne_nil _ _
  | cons data rest => exact List.cons_ne_nil _ _

/-- **Every encoding is the frames and then the trailers**, whatever the trailers are. The frames are signed
before the trailers are known, so nothing about a trailer can be read off them. -/
theorem segmentsFrom_eq (c : ChunkContext) (htrailers : c.trailers ≠ [])
    (values : List (Bytes × Bytes)) (previous : Bytes) (slices : List Bytes) :
    c.segmentsFrom values previous slices = c.framesFrom previous slices
      ++ [c.trailerSegment (lastSignature previous (c.framesFrom previous slices)) values] := by
  induction slices generalizing previous with
  | nil =>
    have hempty : ¬c.trailers.isEmpty = true := by simpa using htrailers
    rw [segmentsFrom, if_neg hempty]
    rfl
  | cons data rest ih =>
    rw [segmentsFrom, ih, framesFrom, lastSignature_cons, List.cons_append]

/-- The whole encoding is the frames and then the trailers. -/
theorem encode_eq_frames (c : ChunkContext) (htrailers : c.trailers ≠ []) (values : List (Bytes × Bytes))
    (payload : Bytes) : c.encode values payload = segmentTexts (c.frames payload)
      ++ (c.trailerSegment (lastSignature c.seed (c.frames payload)) values).text := by
  show segmentTexts (c.segmentsFrom values c.seed _) = _
  rw [segmentsFrom_eq c htrailers, segmentTexts_append, segmentTexts_cons, segmentTexts_nil,
    List.append_nil]
  rfl

/-- Where chunks are not signed the seed stays in the place of every signature. -/
theorem signature_of_mem_frames (htrailers : c.trailers ≠ []) (hsigned : c.signed = false)
    {payload : Bytes} {segment : Segment} (h : segment ∈ c.frames payload) :
    segment.signature = c.seed := by
  have hmem : segment ∈ c.segmentsFrom [] c.seed (Chunked.slices c.chunkSize.toNat payload) := by
    rw [segmentsFrom_eq c htrailers]
    exact List.mem_append_left _ h
  exact signature_of_mem_segmentsFrom hsigned hmem

/-- No frame is empty, so each of them is noticed when it is delivered. -/
theorem text_ne_nil_of_mem_framesFrom {previous : Bytes} {slices : List Bytes} {segment : Segment}
    (h : segment ∈ c.framesFrom previous slices) : segment.text ≠ [] := by
  induction slices generalizing previous with
  | nil =>
    rw [List.mem_singleton.mp h]
    exact c.chunkSegment_text_ne_nil previous []
  | cons data rest ih =>
    rcases List.mem_cons.mp h with rfl | h
    · exact c.chunkSegment_text_ne_nil previous data
    · exact ih h

/-- When the text of the frames was asked for, all of them were begun. -/
theorem eq_nil_of_length_frames_le {payload : Bytes} {n : Nat} {rest : List Segment}
    (hframes : c.frames payload = Segment.begun n (c.frames payload) ++ rest)
    (hn : (segmentTexts (c.frames payload)).length ≤ n) : rest = [] := by
  rcases Segment.le_length_begun hframes with hle | hnil
  · cases rest with
    | nil => rfl
    | cons frame rest =>
      -- The text of one more frame would be beyond the end of the whole text.
      have hmem : frame ∈ c.framesFrom c.seed (Chunked.slices c.chunkSize.toNat payload) := by
        rw [← frames, hframes]
        exact List.mem_append_right _ List.mem_cons_self
      have hpos : 0 < frame.text.length := List.length_pos_iff.mpr (text_ne_nil_of_mem_framesFrom hmem)
      have hlength := congrArg (fun segments => (segmentTexts segments).length) hframes
      simp only [segmentTexts_append, segmentTexts_cons, List.length_append] at hlength
      omega
  · exact hnil

end ChunkContext

namespace ChunkStream

variable {ρ : Type} {pull : Pull ρ} {c : ChunkContext} {values : List (Bytes × Bytes)}
  {s : ChunkStream ρ} {frames : List Segment} {last : Segment} {shared : Shared} {failure : Failure}

/-! ## One reading -/

/-- A stream with the trailers before it has come to them just if no frame is left. So which phase it is in
can be told from what it has still to produce. -/
theorem Holds.trailers_iff (htrailers : c.trailers ≠ [])
    (h : s.Holds pull c values (frames ++ [last])) : s.phase = .trailers ↔ frames = [] := by
  obtain ⟨rest, -, hsegments⟩ := h.upcoming
  -- Before the trailers at least the frame that ends the payload is left.
  cases hphase : s.phase with
  | chunks =>
    rw [hphase, ChunkContext.upcoming, ChunkContext.segmentsFrom_eq c htrailers] at hsegments
    have hframes := (List.append_inj_left' hsegments rfl).symm
    refine iff_of_false (by simp) ?_
    rw [hframes]
    exact c.framesFrom_ne_nil _ _
  | trailers =>
    rw [hphase, ChunkContext.upcoming] at hsegments
    refine iff_of_true rfl ?_
    have hsegments' : [] ++ [c.trailerSegment s.previous values] = frames ++ [last] := hsegments
    exact (List.append_inj_left' hsegments' rfl).symm
  | finished =>
    rw [hphase, ChunkContext.upcoming] at hsegments
    exact absurd hsegments (by simp)
  | cancelled => exact absurd hphase h.active

/-- A stream that has come to a bad trailer produces nothing and stays as it is. -/
theorem refill_of_firstBad (hphase : s.phase = .trailers) (hpending : s.pending = [])
    (hbad : FirstBad shared failure s.context.trailers) :
    refill pull s shared = (.error failure, s, shared) := by
  rw [refill, if_pos (by simp [hpending]), hphase]
  simp only [hbad.mapM_resolve]

/-- The stream has these frames to produce, and behind them trailers that cannot be sent. The segment in
the place of the trailers is never produced. -/
def HoldsFrames (pull : Pull ρ) (c : ChunkContext) (failure : Failure) (s : ChunkStream ρ)
    (shared : Shared) (frames : List Segment) : Prop :=
  FirstBad shared failure c.trailers ∧ ∃ last, s.Holds pull c [] (frames ++ [last])

/-- Such a stream produces all its frames, and then fails. It stays at the trailers, so it fails again
however often it is read. -/
theorem producesAll_of_firstBad (hsize : c.chunkSize ≠ 0) (failure : Failure) :
    ProducesAll pull (.error failure) (HoldsFrames pull c failure) where
  next := by
    -- While a frame is left the trailers are not reached.
    rintro s shared frame frames hpending ⟨hbad, last, hs⟩
    have hnot : s.phase ≠ .trailers := fun hphase =>
      absurd ((hs.trailers_iff hbad.ne_nil).mp hphase) (List.cons_ne_nil frame frames)
    obtain ⟨s', shared', hrefill, hproduced, hsettled⟩ :=
      refill_produces hsize hpending (fun hphase => absurd hphase hnot) hs
    exact ⟨s', shared', hrefill, hproduced.pending, hproduced.text_ne_nil, hproduced.previous,
      ⟨hbad.mono hsettled, last, hproduced.holds⟩, hsettled⟩
  stop := by
    rintro s shared hpending ⟨hbad, last, hs⟩
    have hphase : s.phase = .trailers := (hs.trailers_iff hbad.ne_nil).mpr rfl
    exact refill_of_firstBad hphase hpending (hs.context ▸ hbad)
  copy := fun _ ⟨hbad, last, hs⟩ => ⟨hbad, last, hs.context, hs.active, hs.upcoming⟩

/-! ## A run of readings -/

/-- What readings of these lengths return from a stream on `payload` that cannot send its trailers, and the
state `s` that they leave it in. -/
structure Withholds (pull : Pull ρ) (c : ChunkContext) (payload : Bytes) (failure : Failure)
    (shared : Shared) (stream : ChunkStream ρ) (lengths : List Nat) (s : ChunkStream ρ) : Prop where
  /-- Each reading returns as many of the next bytes of the frames as it asked for, or fails where there
  are not so many. -/
  reads : ∃ shared', Pull.reads (ChunkStream.pull pull) lengths stream shared
    = (Bytes.piecesBefore (.error failure) lengths (segmentTexts (c.frames payload)), s, shared')
  /-- The stream is never finished. -/
  phase : s.phase = .chunks ∨ s.phase = .trailers
  /-- What was produced and is not delivered yet is of the frames. -/
  pending : s.pending <:+: segmentTexts (c.frames payload)
  /-- When all frames were asked for it waits with nothing to deliver, and the last signature is that of
  the frame that ends the payload. -/
  waits : (segmentTexts (c.frames payload)).length ≤ lengths.sum →
    s.phase = .trailers ∧ s.pending = [] ∧ s.previous = lastSignature c.seed (c.frames payload)
  unsigned : c.signed = false → s.previous = c.seed

/-- **A bad trailer is never half sent.** Of a stream whose trailers have all settled, one of them bad, only
the frames can be read, which stand in front of the trailers in every encoding. Behind them each reading
fails with the first bad trailer. -/
theorem withholds_trailers {source : ρ} {payload : Bytes} (hsource : Supplies pull source payload)
    (hsize : c.chunkSize ≠ 0)
    (hsettled : ∀ trailer ∈ c.trailers, (shared.trailer? trailer.value).isSome)
    (hbad : ∃ trailer ∈ c.trailers, ∃ failure, trailer.Bad shared failure) :
    ∃ stream failure, start (some source) c = .ok stream ∧ FirstBad shared failure c.trailers
      ∧ (∀ values, ∃ previous, c.encode values payload
        = segmentTexts (c.frames payload) ++ (c.trailerSegment previous values).text)
      ∧ ∀ lengths : List Nat, ∃ s, Withholds pull c payload failure shared stream lengths s := by
  obtain ⟨failure, hfirst⟩ := exists_firstBad hsettled hbad
  have htrailers := hfirst.ne_nil
  let stream : ChunkStream ρ := { source, context := c, previous := c.seed }
  refine ⟨stream, failure, by rw [start, if_neg hsize], hfirst,
    fun values => ⟨_, c.encode_eq_frames htrailers values payload⟩, fun lengths => ?_⟩
  have hholds : HoldsFrames pull c failure stream shared (c.frames payload) :=
    ⟨hfirst, _, rfl, by simp [stream], payload, hsource, c.segmentsFrom_eq htrailers [] c.seed _⟩
  -- All frames are still to come.
  have hbegin : Stands (HoldsFrames pull c failure) c.seed (c.frames payload) 0 stream shared :=
    ⟨⟨c.frames payload, by simp, hholds⟩, by simp [stream], by simp [stream]⟩
  obtain ⟨s, shared', hreads, hstands, -⟩ :=
    (producesAll_of_firstBad hsize failure).reads_eq hbegin lengths
  rw [Nat.zero_add] at hstands
  obtain ⟨rest, hframes, -, last, hs⟩ := hstands.held
  refine ⟨s, ⟨shared', hreads⟩, ?_, ?_, fun hall => ?_, fun hsigned => ?_⟩
  · cases hphase : s.phase with
    | chunks => exact .inl rfl
    | trailers => exact .inr rfl
    | finished => exact absurd (hs.finished_iff.mp hphase) (by simp)
    | cancelled => exact absurd hphase hs.active
  · -- What is pending was begun, and what was begun is of the frames.
    have hbegun : segmentTexts (c.frames payload)
        = segmentTexts (Segment.begun lengths.sum (c.frames payload)) ++ segmentTexts rest := by
      rw [← segmentTexts_append, ← hframes]
    rw [hstands.pending, hbegun]
    exact (List.drop_suffix _ _).isInfix.trans (List.prefix_append _ _).isInfix
  · obtain rfl := ChunkContext.eq_nil_of_length_frames_le hframes hall
    rw [List.append_nil] at hframes
    refine ⟨(hs.trailers_iff htrailers).mpr rfl, ?_, ?_⟩
    · rw [hstands.pending, ← hframes, List.drop_of_length_le hall]
    · rw [hstands.previous, ← hframes]
  · rw [hstands.previous]
    refine lastSignature_of_forall fun frame hframe => ?_
    have hmem : frame ∈ c.frames payload := by
      rw [hframes]
      exact List.mem_append_left rest hframe
    exact ChunkContext.signature_of_mem_frames htrailers hsigned hmem

/-- A good trailer, one with a line break, and one that failed. -/
def badTrailers : Shared where
  trailers := [.settled (.ok (ascii "abc")), .settled (.ok (ascii "a\r\nb")),
    .settled (.error (.reported (ascii "checksum failed")))]

def badContext : ChunkContext :=
  { sampleContext with
    trailers := [⟨ascii "x-check", 0⟩, ⟨ascii "x-break", 1⟩, ⟨ascii "x-failed", 2⟩] }

/-- The trailer with the line break is met with first, and the one that failed is not reached. -/
theorem withholds_trailers_of_line_break :
    Supplies ByteSource.pull (MemorySource.mk (ascii "abcd")) (ascii "abcd")
    ∧ badContext.chunkSize ≠ 0
    ∧ (∀ trailer ∈ badContext.trailers, (badTrailers.trailer? trailer.value).isSome)
    ∧ (∃ trailer ∈ badContext.trailers, ∃ failure, trailer.Bad badTrailers failure)
    ∧ ∃ stream failure, start (some (MemorySource.mk (ascii "abcd"))) badContext = .ok stream
      ∧ FirstBad badTrailers failure badContext.trailers
      ∧ (∀ values, ∃ previous, badContext.encode values (ascii "abcd")
        = segmentTexts (badContext.frames (ascii "abcd"))
          ++ (badContext.trailerSegment previous values).text)
      ∧ ∀ lengths : List Nat, ∃ s,
        Withholds ByteSource.pull badContext (ascii "abcd") failure badTrailers stream lengths s := by
  have hsettled : ∀ trailer ∈ badContext.trailers, (badTrailers.trailer? trailer.value).isSome := by
    decide
  have hbad : ∃ trailer ∈ badContext.trailers, ∃ failure, trailer.Bad badTrailers failure :=
    ⟨⟨ascii "x-failed", 2⟩, by decide, _, .failed rfl⟩
  exact ⟨supplies_memory _, by decide, hsettled, hbad,
    withholds_trailers (supplies_memory _) (by decide) hsettled hbad⟩

end ChunkStream

end SigV4
