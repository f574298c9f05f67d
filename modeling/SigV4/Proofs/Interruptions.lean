import SigV4.Proofs.StreamEvents

/-!
# Streams whose source fails

A reading of an aws-chunked stream fails where its source or a trailer does, and the readings behind
it go on. What is lost on the way is determined by the events of the readings:

* **`framed_eq_record_iff`**: a failed filling of a chunk loses what the source had handed out for it.
  So the payload is sent in full exactly if the source never failed within a chunk.
* **`returned_eq_produced_iff`**: a failed reading moves on by all that was pending and all that it
  produced. So the encoding is returned in full exactly if no reading failed that had copied a byte.
-/

namespace SigV4

/-- Where each part is kept in full or not at all, the whole is kept only if each part is. A part that is
lost makes the whole shorter, and no other part can make up for it, so lengths decide. -/
theorem Bytes.flatMap_eq_iff {α : Type} {whole kept : α → Bytes}
    (h : ∀ a, kept a = whole a ∨ kept a = []) (parts : List α) :
    parts.flatMap kept = parts.flatMap whole ↔ ∀ a ∈ parts, kept a = whole a := by
  -- What is kept is never longer than what there was.
  have hle (parts : List α) : (parts.flatMap kept).length ≤ (parts.flatMap whole).length := by
    induction parts with
    | nil => exact Nat.le_refl 0
    | cons a parts ih =>
      rw [List.flatMap_cons, List.flatMap_cons, List.length_append, List.length_append]
      rcases h a with ha | ha
      · rw [ha]
        omega
      · rw [ha, List.length_nil]
        omega
  constructor
  · intro heq
    induction parts with
    | nil => simp
    | cons a parts ih =>
      rw [List.flatMap_cons, List.flatMap_cons] at heq
      have hkept : kept a = whole a := by
        rcases h a with ha | ha
        · exact ha
        · -- Nothing makes up for the length of a part that is missing.
          have hlength := congrArg List.length heq
          have hrest := hle parts
          rw [ha, List.nil_append, List.length_append] at hlength
          have hwhole : (whole a).length = 0 := by omega
          rw [ha, List.length_eq_zero_iff.mp hwhole]
      rw [hkept] at heq
      exact List.forall_mem_cons.mpr ⟨hkept, ih (List.append_cancel_left heq)⟩
  · intro hall
    rw [List.flatMap_def, List.flatMap_def, List.map_congr_left hall]

/-- A source that gives these answers one after the other and is at its end behind them. -/
def Pull.scripted : Pull (List (Outcome Bytes)) := fun _ answers shared =>
  match answers with
  | [] => (.ok [], [], shared)
  | answer :: answers => (answer, answers, shared)

namespace ChunkStream

variable {ρ : Type} {pull : Pull ρ} {c : ChunkContext} {shared : Shared}

/-! ## Bytes of the source

Bytes that a source handed out for a chunk are lost if the chunk is never framed. -/

namespace Event

/-- An event keeps what the source handed out for it, or nothing of it. -/
theorem payload_eq_or (event : Event) : event.payload = event.handed ∨ event.payload = [] := by
  cases event with
  | framed data => exact .inl rfl
  | closed values => exact .inl rfl
  | interrupted taken => exact .inr rfl

/-- All is kept exactly if the source had handed out nothing whenever it failed within a chunk. -/
theorem payload_eq_handed_iff {events : List Event} :
    (∀ event ∈ events, event.payload = event.handed)
      ↔ ∀ taken, .interrupted taken ∈ events → taken = [] := by
  constructor
  · intro h taken htaken
    exact (h _ htaken).symm
  · intro h event hevent
    cases event with
    | framed data => rfl
    | closed values => rfl
    | interrupted taken => exact (h taken hevent).symm

end Event

/-- What becomes of the bytes that the source hands out in readings of these lengths, which leave the
stream `s`. -/
structure Frames (pull : Pull ρ) (c : ChunkContext) (stream : ChunkStream (ρ × Bytes)) (shared : Shared)
    (lengths : List Nat) (s : ChunkStream (ρ × Bytes)) : Prop where
  reads : (Pull.reads (ChunkStream.pull pull.recording) lengths stream shared).2.1 = s
  /-- What was moved on by, and what is pending, are the frames of the chunks. -/
  framed : (readings pull.recording lengths stream shared).flatMap (·.passed pull.recording) ++ s.pending
    = segmentTexts (c.produced c.seed (history pull.recording lengths stream shared))
  /-- All that the source handed out was framed, or taken for a chunk when the source failed. -/
  record : s.source.2 = (history pull.recording lengths stream shared).flatMap Event.handed
  /-- It was all framed if the source never failed within a chunk, and only then. -/
  complete : (history pull.recording lengths stream shared).flatMap Event.payload = s.source.2
    ↔ ∀ taken, .interrupted taken ∈ history pull.recording lengths stream shared → taken = []

/-- **A source that fails within a chunk loses what it handed out for the chunk**, and nothing else is lost.
What was framed and what was handed out are both read off the events of the readings, and the two differ in
the interrupted fillings only. -/
theorem framed_eq_record_iff {source : ρ} {stream : ChunkStream (ρ × Bytes)}
    (hstart : start (some (source, [])) c = .ok stream) (lengths : List Nat) :
    ∃ s, Frames pull c stream shared lengths s := by
  have hstream := start_ok hstart
  obtain ⟨s, shared', hreads, haccounts⟩ := reads_accounts pull.recording lengths stream shared
  have hrecord := haccounts.handed.record_eq
  have hbytes := haccounts.bytes
  rw [hstream, List.nil_append] at hrecord
  refine ⟨s, by rw [hreads], ?_, ?_, ?_⟩
  · rw [← hbytes, hstream, List.nil_append]
  · rw [hrecord, hstream]
  · rw [hrecord, ← hstream, Bytes.flatMap_eq_iff Event.payload_eq_or, Event.payload_eq_handed_iff]

/-- Unsigned chunks of four bytes. -/
def plainContext : ChunkContext :=
  { sampleContext with signed := false, chunkSize := 4, trailers := [] }

/-- A source that fails when it has handed out half of a chunk. -/
def halfChunk : List (Outcome Bytes) :=
  [.ok (ascii "ab"), .error (.reported (ascii "source failed")), .ok (ascii "cdef")]

def halfChunkStream : ChunkStream (List (Outcome Bytes) × Bytes) where
  source := (halfChunk, [])
  context := plainContext
  previous := plainContext.seed

/-- The two readings of a stream whose source fails when it has handed out half of a chunk. -/
theorem framed_eq_record_iff_of_half_chunk :
    start (some (halfChunk, [])) plainContext = .ok halfChunkStream
      ∧ ∃ s, Frames Pull.scripted plainContext halfChunkStream {} [100, 100] s := by
  have hstart : start (some (halfChunk, [])) plainContext = .ok halfChunkStream := rfl
  exact ⟨hstart, framed_eq_record_iff hstart [100, 100]⟩

/-- The second reading finishes the stream, and no chunk has the bytes from before the failure. -/
theorem half_chunk_is_lost :
    let pull := Pull.scripted.recording
    let s := (Pull.reads (ChunkStream.pull pull) [100, 100] halfChunkStream {}).2.1
    let payload := (history pull [100, 100] halfChunkStream {}).flatMap Event.payload
    s.phase = .finished ∧ s.source.2 = ascii "abcdef" ∧ payload = ascii "cdef"
      ∧ payload ≠ s.source.2 := by
  intro pull s payload
  refine ⟨?_, ?_, ?_, ?_⟩
  · decide +kernel
  · decide +kernel
  · decide +kernel
  · decide +kernel

/-! ## Bytes of the encoding

Bytes that were produced are lost if the reading that copied them fails in the end. -/

/-- No segment is produced without text, so a segment that is lost is a loss of bytes. The induction is on
the events. -/
theorem text_ne_nil_of_mem_produced {previous : Bytes} {events : List Event} {segment : Segment}
    (h : segment ∈ c.produced previous events) : segment.text ≠ [] := by
  induction events generalizing previous with
  | nil => exact absurd h List.not_mem_nil
  | cons event events ih =>
    cases event with
    | framed data =>
      rcases List.mem_cons.mp h with rfl | h
      · exact c.chunkSegment_text_ne_nil previous data
      · exact ih h
    | closed values =>
      rcases List.mem_cons.mp h with rfl | h
      · exact c.trailerSegment_text_ne_nil previous values
      · exact ih h
    | interrupted taken => exact ih h

namespace Reading

/-- A reading returns what it moves on by, or nothing of it. -/
theorem returned_eq_or (pull : Pull ρ) (r : Reading ρ) :
    r.returned pull = r.passed pull ∨ r.returned pull = [] := by
  unfold returned passed
  cases r.outcome pull with
  | ok piece => exact .inl rfl
  | error failure => exact .inr rfl

/-- A reading that failed stayed where it was if nothing had been pending and it produced nothing. -/
theorem returned_eq_passed_iff (pull : Pull ρ) (r : Reading ρ) :
    r.returned pull = r.passed pull
      ↔ ∀ failure, r.outcome pull = .error failure → r.stream.pending = [] ∧ r.segments pull = [] := by
  unfold returned passed
  cases r.outcome pull with
  | ok piece => simp
  | error failure =>
    -- Segments have texts, so without a text there is no segment.
    have hsegments : segmentTexts (r.segments pull) = [] ↔ r.segments pull = [] := by
      rw [segmentTexts, List.flatMap_eq_nil_iff, List.eq_nil_iff_forall_not_mem]
      exact forall₂_congr fun segment hsegment =>
        iff_of_false (text_ne_nil_of_mem_produced hsegment) not_false
    simp [hsegments, eq_comm (a := ([] : Bytes))]

end Reading

/-- How far readings of these lengths, which leave the stream `s`, move on in what they produce. -/
structure MovesOn (pull : Pull ρ) (stream : ChunkStream ρ) (shared : Shared) (lengths : List Nat)
    (s : ChunkStream ρ) : Prop where
  reads : (Pull.reads (ChunkStream.pull pull) lengths stream shared).1
      = (readings pull lengths stream shared).map (·.outcome pull)
    ∧ (Pull.reads (ChunkStream.pull pull) lengths stream shared).2.1 = s
  /-- They move on by what they return, and by all that there is where they fail. -/
  passed : (readings pull lengths stream shared).flatMap (·.passed pull) ++ s.pending
    = segmentTexts ((readings pull lengths stream shared).flatMap (·.segments pull))
  /-- What they return leaves nothing out if those that fail have nothing before them, and only
  then. -/
  complete : (readings pull lengths stream shared).flatMap (·.returned pull) ++ s.pending
      = segmentTexts ((readings pull lengths stream shared).flatMap (·.segments pull))
    ↔ ∀ r ∈ readings pull lengths stream shared, ∀ failure, r.outcome pull = .error failure →
      r.stream.pending = [] ∧ r.segments pull = []

/-- **A reading that fails loses what it had copied**, and nothing else of what was produced is lost. The
readings move on by all that they produce, so they return all of it exactly if each returns what it moves on
by. -/
theorem returned_eq_produced_iff {source : ρ} {stream : ChunkStream ρ}
    (hstart : start (some source) c = .ok stream) (lengths : List Nat) :
    ∃ s, MovesOn pull stream shared lengths s := by
  have hstream := start_ok hstart
  obtain ⟨s, shared', hreads, haccounts⟩ := reads_accounts pull lengths stream shared
  have hpassed : (readings pull lengths stream shared).flatMap (·.passed pull) ++ s.pending
      = segmentTexts ((readings pull lengths stream shared).flatMap (·.segments pull)) := by
    rw [segments_readings, ← haccounts.bytes, hstream, List.nil_append]
  refine ⟨s, ⟨by rw [hreads], by rw [hreads]⟩, hpassed, ?_⟩
  rw [← hpassed, List.append_left_inj, Bytes.flatMap_eq_iff (Reading.returned_eq_or pull)]
  exact forall₂_congr fun r _ => r.returned_eq_passed_iff pull

/-- A source that fails between two chunks. -/
def wholeChunk : List (Outcome Bytes) :=
  [.ok (ascii "abcd"), .error (.reported (ascii "source failed")), .ok (ascii "ef")]

def wholeChunkStream : ChunkStream (List (Outcome Bytes)) where
  source := wholeChunk
  context := plainContext
  previous := plainContext.seed

/-- The two readings of a stream whose source fails between two chunks. -/
theorem returned_eq_produced_iff_of_whole_chunk :
    start (some wholeChunk) plainContext = .ok wholeChunkStream
      ∧ ∃ s, MovesOn Pull.scripted wholeChunkStream {} [100, 100] s := by
  have hstart : start (some wholeChunk) plainContext = .ok wholeChunkStream := rfl
  exact ⟨hstart, returned_eq_produced_iff hstart [100, 100]⟩

/-- The reading that fails had copied the frame of the first chunk, which no other reading returns. -/
theorem copied_frame_is_lost :
    let all := readings Pull.scripted [100, 100] wholeChunkStream {}
    segmentTexts (all.flatMap (·.segments Pull.scripted)) = ascii "4\r\nabcd\r\n2\r\nef\r\n0\r\n\r\n"
      ∧ all.flatMap (·.returned Pull.scripted) = ascii "2\r\nef\r\n0\r\n\r\n"
      ∧ ¬ all.flatMap (·.returned Pull.scripted)
        <+: segmentTexts (all.flatMap (·.segments Pull.scripted)) := by
  intro all
  refine ⟨?_, ?_, ?_⟩
  · decide +kernel
  · decide +kernel
  · decide +kernel

end ChunkStream

end SigV4
