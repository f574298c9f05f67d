import SigV4.Proofs.ChecksumTrailers
import SigV4.Proofs.ReadingRules
import SigV4.Proofs.StreamEvents
import SigV4.Proofs.WithheldTrailers

/-!
# Verdicts on a checksum

The readers of a body with a checksum share its trailer. A reading has a verdict on it where it fails before
the end of the payload, and where it comes to that end; the trailer takes the first verdict of all:

* **`Tally.verdict`**: the verdict of a reading, told by the state of the checksum before and after it.
* **`Checksummed.Judged`**: the step. A reading of a checksum, however often its source is read in it.
* **`Body.HasDelivered`**: what a reader of a body has delivered. Its digest is that of these bytes
  (`Body.HasDelivered.exists_checksum`), and its readings are judged (`Body.HasDelivered.keeps`).
* **`ChunkStream.Sums.keeps`**: an encoding keeps what the checksum keeps, and comes to its trailers when the
  checksum is finished. What it does then is said by **`ChunkStream.pull_of_firstBad`** and
  **`ChunkStream.pull_of_resolved`**.
* **`Reader.Reads.advances`**: so the rule holds for each reading of a reader, of the body itself or of an
  encoding.
-/

namespace SigV4

/-! ## Verdicts

Every reader of a body computes the same trailer. What it puts forward is its failure, or the
checksum once it is at the end. -/

/-- How far a checksum is. -/
structure Tally where
  digest : Sha256
  finished : Bool

/-- What a reading puts forward as the value of a checksum, by the states before and after it: its failure,
or the checksum at the end of the payload. Behind the end it puts forward nothing more. -/
def Tally.verdict (before : Tally) (failed : Option Failure) (after : Tally) : Option (Outcome Bytes) :=
  if before.finished then none
  else if after.finished then some (.ok (Base64.encode after.digest.finish))
  else failed.map .error

/-- A verdict without a failure is the checksum at the end of the payload. -/
theorem Tally.of_verdict_eq_ok {before after : Tally} {failed : Option Failure} {checksum : Bytes}
    (h : before.verdict failed after = some (.ok checksum)) :
    after.finished = true ∧ checksum = Base64.encode after.digest.finish := by
  unfold verdict at h
  split at h
  · exact absurd h (by simp)
  · split at h
    next hfinished => exact ⟨hfinished, (Except.ok.inj (Option.some.inj h)).symm⟩
    next =>
      obtain ⟨failure, -, hfailure⟩ := Option.map_eq_some_iff.mp h
      exact absurd hfailure (by simp)

namespace Checksummed

variable {ρ : Type}

/-- How far this checksum is. -/
def tally (c : Checksummed ρ) : Tally := ⟨c.digest, c.finished⟩

end Checksummed

/-! ## Other trailers

A reading settles the trailers of the body's own checksums and no others, so what is said of one
trailer is not disturbed by the rest. -/

section

variable {σ : Type} [ByteSource σ]

/-- **Reading settles nothing but the promises of the layers**, which stay the same. A trailer that is none
of them is not touched, by induction on the layers; each checksum settles its own and hands on the others.
-/
theorem Layers.pull_promises (layers : Layers) {ids : List TrailerId} {id : TrailerId} (hid : id ∉ ids)
    (value : Option (Outcome Bytes)) (count : Nat) :
    (layers.pull (σ := σ)).Keeps
      (fun state shared => layers.promises state = ids ∧ shared.trailer? id = value
        ∧ shared.trailers.length = count)
      fun _ state shared => layers.promises state = ids ∧ shared.trailer? id = value
        ∧ shared.trailers.length = count := by
  induction layers generalizing ids with
  | memory => exact fun _ _ _ h => h
  | caller =>
    intro n source shared h
    change σ at source
    show Ends _ _ ((ByteSource.read n source).1, (ByteSource.read n source).2, shared)
    cases (ByteSource.read n source).1 with
    | error failure => exact h
    | ok piece => exact h
  | checksummed inner ih =>
    rintro n c shared ⟨rfl, hvalue, hcount⟩
    obtain ⟨hne, hbelow⟩ := List.ne_and_not_mem_of_not_mem_cons hid
    have hread := ih hbelow n (Checksummed.inner c) shared ⟨rfl, hvalue, hcount⟩
    -- Settling the trailer of this layer is not seen at `id`, which is none of the promises.
    have hsettle {later : Shared} (hvalue' : later.trailer? id = value)
        (hcount' : later.trailers.length = count) (verdict : Outcome Bytes) :
        (later.settle (Checksummed.trailer c) verdict).trailer? id = value
          ∧ (later.settle (Checksummed.trailer c) verdict).trailers.length = count :=
      ⟨(Shared.trailer?_settle_of_ne hne verdict).trans hvalue', by rw [Shared.length_settle, hcount']⟩
    -- A reading of a checksum is nothing, or a reading of its source and then at most a verdict.
    generalize hresult : (checksummed inner).pull n c shared = result
    cases Checksummed.pulled hresult with
    | nothing => exact ⟨rfl, hvalue, hcount⟩
    | failure hopen heq =>
      rw [heq] at hread
      exact ⟨congrArg (List.cons _) hread.1, hsettle hread.2.1 hread.2.2 _⟩
    | finish hopen heq =>
      rw [heq] at hread
      exact ⟨congrArg (List.cons _) hread.1, hsettle hread.2.1 hread.2.2 _⟩
    | piece hopen heq =>
      rw [heq] at hread
      exact ⟨congrArg (List.cons _) hread.1, hread.2⟩
  | chunked inner ih => exact ChunkStream.pull_ends (ih hid) fun _ _ _ _ h _ => h

omit [ByteSource σ] in
/-- A reader has to settle the trailers that its body promises. -/
theorem Body.promises_openReader {body : Body σ} {shared opened : Shared} {reader : Reader σ}
    (h : body.openReader shared = (.ok (some reader), opened)) : reader.promises = body.promises := by
  -- Each layer passes on what the reader below it has to settle.
  induction body generalizing shared reader opened with
  | empty =>
    obtain rfl := Option.some.inj (Except.ok.inj (Prod.mk.inj h).1)
    rfl
  | bytes content =>
    obtain rfl := Option.some.inj (Except.ok.inj (Prod.mk.inj h).1)
    rfl
  | stream id length replayable sources =>
    obtain ⟨-, source, -, rfl⟩ := exists_source_of_stream h
    rfl
  | checksummed id inner trailer ih =>
    obtain ⟨below, rfl, hinner⟩ := exists_reader_of_checksummed h
    exact congrArg (trailer :: ·) (ih hinner)
  | chunked id payload context ih =>
    obtain ⟨inner, stream, hinner, hstart, rfl⟩ := exists_reader_of_chunked h
    have hpayload := ih hinner
    rw [ChunkStream.start_ok hstart]
    exact hpayload

end

/-! ## One checksum -/

namespace Checksummed

variable {ρ : Type} {inner : Pull ρ} {c c' : Checksummed ρ} {start : Tally} {id : TrailerId}
  {value : Option (Outcome Bytes)} {shared shared' : Shared} {failed : Option Failure}

/-- The trailer has the value that it had when the checksum was at `start`, or else the verdict since. -/
structure Judged (start : Tally) (value : Option (Outcome Bytes)) (id : TrailerId) (failed : Option Failure)
    (c : Checksummed ρ) (shared : Shared) : Prop where
  trailer : c.trailer = id
  known : id < shared.trailers.length
  value : shared.trailer? id = value.or (start.verdict failed c.tally)
  /-- What is finished stays as it is. -/
  finished : start.finished = true → c.tally = start

/-- Before any reading there is no verdict. -/
theorem Judged.refl (hknown : c.trailer < shared.trailers.length) :
    Judged c.tally (shared.trailer? c.trailer) c.trailer none c shared := by
  refine ⟨rfl, hknown, ?_, fun _ => rfl⟩
  cases hfinished : c.finished with
  | true => simp [Tally.verdict, tally, hfinished]
  | false => simp [Tally.verdict, tally, hfinished]

/-- A reading of the source, which is of no account to the trailer, and then its verdict. There is one case
for each thing that a reading of a checksum can come to, and only an end or a failure puts something
forward. -/
theorem Judged.pull (h : Judged start value id none c shared) {n : Nat} {outcome : Outcome Bytes}
    (hpull : Checksummed.pull inner n c shared = (outcome, c', shared'))
    (hinner : (inner n c.inner shared).2.2.trailer? id = shared.trailer? id
      ∧ (inner n c.inner shared).2.2.trailers.length = shared.trailers.length) :
    Judged start value id outcome.failure? c' shared' := by
  obtain ⟨rfl, hknown, hvalue, hfinished⟩ := h
  -- Unless the checksum is finished it has put forward nothing.
  have hstart (hopen : c.finished = false) : start.finished = false := by
    cases hstart : start.finished with
    | false => rfl
    | true => exact absurd (congrArg Tally.finished (hfinished hstart)) (by simp [tally, hopen, hstart])
  have hbefore (hopen : c.finished = false) : shared.trailer? c.trailer = value := by
    rw [hvalue, Tally.verdict, hstart hopen]
    simp [tally, hopen]
  -- What the trailer is settled to counts only if it had no value when the checksum was at `start`.
  have hsettle {later : Shared} (hopen : c.finished = false)
      (hlater : later.trailer? c.trailer = shared.trailer? c.trailer
        ∧ later.trailers.length = shared.trailers.length) (verdict : Outcome Bytes) :
      (later.settle c.trailer verdict).trailer? c.trailer = value.or (some verdict) := by
    rw [Shared.trailer?_settle_self (hlater.2 ▸ hknown), hlater.1, hbefore hopen]
  have hlength : c.trailer < (inner n c.inner shared).2.2.trailers.length := hinner.2 ▸ hknown
  cases Checksummed.pulled hpull with
  | nothing => exact ⟨rfl, hknown, hvalue, hfinished⟩
  | failure hopen hread =>
    rw [hread] at hinner hlength
    refine ⟨rfl, by simpa using hlength, ?_, fun hend => absurd hend (by simp [hstart hopen])⟩
    rw [hsettle hopen hinner, Tally.verdict, hstart hopen]
    simp [tally, hopen, Outcome.failure?]
  | finish hopen hread =>
    rw [hread] at hinner hlength
    refine ⟨rfl, by simpa using hlength, ?_, fun hend => absurd hend (by simp [hstart hopen])⟩
    rw [hsettle hopen hinner, Tally.verdict, hstart hopen]
    simp [tally]
  | piece hopen hread =>
    rw [hread] at hinner hlength
    refine ⟨rfl, hlength, ?_, fun hend => absurd hend (by simp [hstart hopen])⟩
    rw [hinner.1, hbefore hopen, Tally.verdict, hstart hopen]
    simp [tally, hopen, Outcome.failure?]

/-- Where nothing is read the checksum is finished. -/
theorem finished_of_pull {n : Nat} (hpull : Checksummed.pull inner n c shared = (.ok [], c', shared')) :
    c'.finished = true := by
  cases Checksummed.pulled hpull with
  | nothing hfinished => exact hfinished
  | finish => rfl

/-- The digest takes in what is returned. -/
theorem digest_of_pull {n : Nat} {outcome : Outcome Bytes}
    (hpull : Checksummed.pull inner n c shared = (outcome, c', shared')) :
    c'.trailer = c.trailer ∧ c'.digest = c.digest.update (outcome.toOption.getD [])
      ∧ (c'.inner = c.inner ∨ c'.inner = (inner n c.inner shared).2.1) := by
  cases Checksummed.pulled hpull with
  | nothing => exact ⟨rfl, rfl, .inl rfl⟩
  | failure _ hread | finish _ hread | piece _ hread => exact ⟨rfl, rfl, .inr (by rw [hread])⟩

/-- Behind its end a checksum supplies nothing. -/
theorem supplies_of_finished (h : c.finished = true) : Supplies (Checksummed.pull inner) c [] := by
  refine ⟨fun c rest => c.finished = true ∧ rest = [], ?_, h, rfl⟩
  rintro c rest n shared ⟨hfinished, rfl⟩ -
  refine ⟨[], [], c, shared, ?_, rfl, Nat.zero_le n, fun _ => rfl, ⟨hfinished, rfl⟩, .refl shared⟩
  rw [Checksummed.pull, if_pos hfinished]

/-- A finished checksum has put forward its verdict, so further failures change nothing. -/
theorem Judged.of_finished (h : Judged start value id none c shared) (hfinished : c.finished = true)
    (failed : Option Failure) : Judged start value id failed c shared := by
  refine ⟨h.trailer, h.known, ?_, h.finished⟩
  rw [h.value, Tally.verdict, Tally.verdict]
  simp [tally, hfinished]

end Checksummed

/-! ## Readers of a body -/

section

variable {σ : Type} [ByteSource σ] {body : Body σ} {reader : Reader σ} {payload : Bytes}

/-- The reader has delivered these bytes of the body, in readings of any lengths of which any may have
failed, and whatever others did in between. -/
inductive Body.HasDelivered (body : Body σ) : Reader σ → Bytes → Prop where
  | opened {shared opened : Shared} {reader : Reader σ}
      (hopen : body.openReader shared = (.ok (some reader), opened)) : body.HasDelivered reader []
  | read {shared shared' : Shared} {reader reader' : Reader σ} {payload : Bytes} {n : Nat}
      {outcome : Outcome Bytes} (h : body.HasDelivered reader payload)
      (hread : reader.read n shared = (outcome, reader', shared')) :
      body.HasDelivered reader' (payload ++ outcome.toOption.getD [])

/-- The checksum of a reader of the body, which is judged. -/
def Body.JudgedIn (body : Body σ) (layers : Layers) (id : TrailerId) (start : Tally)
    (value : Option (Outcome Bytes)) (failed : Option Failure) (c : Checksummed (layers.State σ))
    (shared : Shared) : Prop :=
  (∃ payload, body.HasDelivered ⟨.checksummed layers, c⟩ payload)
    ∧ Checksummed.Judged start value id failed c shared

theorem Reader.read_checksummed {layers : Layers} {n : Nat} {c c' : Checksummed (layers.State σ)}
    {shared shared' : Shared} {outcome : Outcome Bytes}
    (hpull : Checksummed.pull layers.pull n c shared = (outcome, c', shared')) :
    Reader.read n ⟨.checksummed layers, c⟩ shared = (outcome, ⟨.checksummed layers, c'⟩, shared') := by
  have hpull' : (Layers.checksummed layers).pull n c shared = (outcome, c', shared') := hpull
  rw [read, hpull']

namespace Body.HasDelivered

variable {id : StreamId} {inner : Body σ} {trailer : TrailerId}

/-- The digest is that of the bytes that were delivered. Readings that fail deliver nothing and leave the
digest as it is, so any number of them may lie in between. -/
theorem exists_checksum (h : (checksummed id inner trailer).HasDelivered reader payload)
    (hfresh : trailer ∉ inner.promises) :
    ∃ (layers : Layers) (c : Checksummed (layers.State σ)), reader = ⟨.checksummed layers, c⟩
      ∧ c.trailer = trailer ∧ c.digest = ({} : Sha256).update payload
      ∧ layers.promises c.inner = inner.promises := by
  -- The induction is on the readings so far. Each hands the bytes it returns to the digest.
  induction h with
  | opened hopen =>
    obtain ⟨below, rfl, hinner⟩ := exists_reader_of_checksummed hopen
    exact ⟨below.layers, _, rfl, rfl, rfl, promises_openReader hinner⟩
  | @read shared shared' reader reader' payload n outcome _ hread ih =>
    obtain ⟨layers, c, rfl, htrailer, hdigest, hpromises⟩ := ih
    rcases hpull : Checksummed.pull layers.pull n c shared with ⟨result, c', after⟩
    rw [Reader.read_checksummed hpull] at hread
    obtain ⟨rfl, hrest⟩ := Prod.mk.inj hread
    obtain ⟨rfl, rfl⟩ := Prod.mk.inj hrest
    obtain ⟨htrailer', hdigest', hinner⟩ := Checksummed.digest_of_pull hpull
    refine ⟨layers, c', rfl, htrailer'.trans htrailer, ?_, ?_⟩
    · rw [hdigest', hdigest, Sha256.update_append]
    · have hbelow := (Layers.pull_promises layers hfresh _ _ n c.inner shared ⟨hpromises, rfl, rfl⟩).elim
      rcases hinner with hsame | hsame
      · rw [hsame, hpromises]
      · rw [hsame, hbelow.1]

/-- **A reading of the body judges the checksum.** The reader stays one of the body, with what it delivers
added to what it has delivered, and its trailer has a value or takes the verdict. -/
theorem keeps (hfresh : trailer ∉ inner.promises) (layers : Layers) (start : Tally)
    (value : Option (Outcome Bytes)) :
    Pull.Keeps (Checksummed.pull (layers.pull (σ := σ)))
      ((checksummed id inner trailer).JudgedIn layers trailer start value none)
      fun failure => (checksummed id inner trailer).JudgedIn layers trailer start value (some failure) := by
  rintro n c shared ⟨⟨payload, hdelivered⟩, hjudged⟩
  rcases hpull : Checksummed.pull layers.pull n c shared with ⟨outcome, c', shared'⟩
  have hdelivered' := hdelivered.read (Reader.read_checksummed hpull)
  have hpromises : layers.promises c.inner = inner.promises := by
    obtain ⟨layers', c₁, heq, -, -, hpromises⟩ := hdelivered.exists_checksum hfresh
    cases heq
    exact hpromises
  have hbelow := (Layers.pull_promises layers hfresh _ _ n c.inner shared ⟨hpromises, rfl, rfl⟩).elim
  exact ends_iff.mpr ⟨⟨_, hdelivered'⟩, hjudged.pull hpull hbelow.2⟩

end Body.HasDelivered

end

/-! ## Encodings of a body

An encoding reads its payload in pieces of its own. What it leaves the checksum in is what readings
of the body itself would leave it in. -/

namespace ChunkStream

/-- Filling finds nothing only where one reading does. A first piece that is not empty would be part of what
is found. -/
theorem pull_of_fill_nil {ρ : Type} {pull : Pull ρ} {room : Nat} {source source' : ρ}
    {shared shared' : Shared} (hroom : room ≠ 0)
    (h : fill pull room source shared [] = (.ok [], source', shared')) :
    pull room source shared = (.ok [], source', shared') := by
  obtain ⟨outcome, source₁, shared₁, hfill, -, hdata⟩ := fill_handsOut pull room source shared []
  have htaken := hdata [] (Prod.mk.inj (hfill.symm.trans h)).1
  rw [fillTaken, if_neg hroom] at htaken
  rw [fill, if_neg hroom] at h
  rcases hread : pull room source shared with ⟨result, source₂, shared₂⟩
  rw [hread] at h htaken
  cases result with
  | error failure => exact absurd (Prod.mk.inj h).1 (by simp)
  | ok piece =>
    cases piece with
    | nil => exact h
    | cons b bytes => exact absurd htaken (by simp)

/-- The stream is one of this context, and past the chunks its checksum is finished. -/
structure Sums {ρ : Type} (context : ChunkContext) (s : ChunkStream (Checksummed ρ)) : Prop where
  context : s.context = context
  finished : s.phase = .trailers → s.source.finished = true

/-- The stream sums, and this holds of its checksum. -/
def SumsWith {ρ : Type} (context : ChunkContext) (R : Option Failure → Checksummed ρ → Shared → Prop)
    (failed : Option Failure) (s : ChunkStream (Checksummed ρ)) (shared : Shared) : Prop :=
  s.Sums context ∧ R failed s.source shared

/-- **A stream keeps what its checksum keeps.** Trailers that cannot be sent are met with when the checksum
is finished. -/
theorem Sums.keeps {ρ : Type} {inner : Pull ρ} {context : ChunkContext} (hsize : context.chunkSize ≠ 0)
    {R : Option Failure → Checksummed ρ → Shared → Prop}
    (hpull : (Checksummed.pull inner).Keeps (R none) fun failure => R (some failure))
    (hfinished : ∀ failure c shared, R none c shared → c.finished = true → R (some failure) c shared) :
    (ChunkStream.pull (Checksummed.pull inner)).Keeps (SumsWith context R none)
      fun failure => SumsWith context R (some failure) := by
  intro n s shared h
  refine deliver_ends ?_ (fun s _ _ h => ⟨⟨h.1.context, h.1.finished⟩, h.2⟩) n h []
  rintro s shared ⟨hsums, h⟩
  have hroom : s.context.chunkSize.toNat ≠ 0 := by
    rw [hsums.context]
    exact fun hzero => hsize (UInt64.toNat_inj.mp hzero)
  -- Only the phase of the chunks reads the source; in that of the trailers the checksum is finished.
  unfold refill
  split
  · cases hphase : s.phase with
    | chunks =>
      have hfill := fill_ends hpull s.context.chunkSize.toNat h []
      dsimp only
      rcases hresult : fill (Checksummed.pull inner) s.context.chunkSize.toNat s.source shared []
        with ⟨outcome, source', shared'⟩
      rw [hresult] at hfill
      cases outcome with
      | error failure =>
        exact ⟨⟨hsums.context, fun htrailers => absurd htrailers (by simp)⟩, hfill⟩
      | ok data =>
        refine ⟨⟨hsums.context, fun htrailers => ?_⟩, hfill⟩
        -- Only the chunk without data leads to the trailers.
        cases data with
        | nil => exact Checksummed.finished_of_pull (pull_of_fill_nil hroom hresult)
        | cons b bytes => exact absurd htrailers (by simp [produce, phaseAfter])
    | trailers =>
      dsimp only
      cases s.context.trailers.mapM (·.resolve shared) with
      | error failure => exact ⟨hsums, hfinished failure s.source shared h (hsums.finished hphase)⟩
      | ok values => exact ⟨⟨hsums.context, fun htrailers => absurd htrailers (by simp [produce])⟩, h⟩
    | finished => exact ⟨hsums, h⟩
    | cancelled => exact ⟨hsums, h⟩
  · exact ⟨hsums, h⟩

variable {ρ : Type} {inner : Pull ρ} {s : ChunkStream (Checksummed ρ)} {shared : Shared}

/-- Past the payload and with a trailer that is bad, a stream returns what is pending and then fails. -/
theorem pull_of_firstBad (hsize : s.context.chunkSize ≠ 0) (hfinished : s.source.finished = true)
    (hphase : s.phase = .trailers) {failure : Failure} (hbad : FirstBad shared failure s.context.trailers)
    (n : Nat) : ∃ s' shared', ChunkStream.pull (Checksummed.pull inner) n s shared
      = (Bytes.pieceBefore (.error failure) n s.pending, s', shared') ∧ s'.phase = .trailers := by
  -- Seen as a stream that has no frames left, it has only its pending bytes to deliver.
  have hholds : HoldsFrames (Checksummed.pull inner) s.context failure s shared [] :=
    ⟨hbad, s.context.trailerSegment s.previous [], rfl, by simp [hphase], [],
      Checksummed.supplies_of_finished hfinished, by rw [hphase]; rfl⟩
  obtain ⟨s', shared', hdeliver, hmoved, -⟩ :=
    (producesAll_of_firstBad hsize failure).deliver_eq n hholds []
  obtain ⟨rest, hrest, -, last, hs⟩ := hmoved.held
  have hnone : rest = [] := (List.append_eq_nil_iff.mp hrest.symm).2
  refine ⟨s', shared', ?_, (hs.trailers_iff hbad.ne_nil).mpr hnone⟩
  rw [ChunkStream.pull, hdeliver, segmentTexts_nil, List.append_nil]
  cases Bytes.pieceBefore (.error failure) n s.pending <;> rfl

/-- Past the payload and with its trailers resolved, a stream returns what is pending and the trailers, and
is finished. -/
theorem pull_of_resolved (hsize : s.context.chunkSize ≠ 0) (hfinished : s.source.finished = true)
    (hphase : s.phase = .trailers) {values : List (Bytes × Bytes)}
    (hvalues : Resolved shared s.context.trailers values) (n : Nat) :
    ∃ s' shared', ChunkStream.pull (Checksummed.pull inner) n s shared
        = (.ok ((s.pending ++ (s.context.trailerSegment s.previous values).text).take n), s', shared')
      ∧ (s.pending.length < n → s'.phase = .finished) := by
  -- A source that is at its end settles nothing more.
  have hlead : LeadsTo (Checksummed.pull inner)
      (fun c shared => c.finished = true ∧ Resolved shared s.context.trailers values)
      fun shared => Resolved shared s.context.trailers values := by
    rintro n c shared piece c' shared' - ⟨hend, hresolved⟩ hpull
    rw [Checksummed.pull, if_pos hend] at hpull
    obtain ⟨-, rfl, rfl⟩ := Pull.ok_inj hpull
    exact ⟨⟨hend, hresolved⟩, fun _ => hresolved⟩
  have hholds : s.Holds (Checksummed.pull inner) s.context values
      [s.context.trailerSegment s.previous values] :=
    ⟨rfl, by simp [hphase], [], Checksummed.supplies_of_finished hfinished, by rw [hphase]; rfl⟩
  obtain ⟨s', shared', hdeliver, hmoved, -⟩ := (producesAll_of_inTime hlead hsize).deliver_eq n
    ⟨⟨⟨hfinished, hvalues⟩, fun _ => hvalues⟩, hholds⟩ []
  refine ⟨s', shared', ?_, fun hlong => ?_⟩
  · rw [ChunkStream.pull, hdeliver, Bytes.pieceBefore_ok, segmentTexts_cons, segmentTexts_nil,
      List.append_nil]
    rfl
  · obtain ⟨rest, hrest, -, hs⟩ := hmoved.held
    rw [Segment.begun_cons (Nat.sub_ne_zero_of_lt hlong)] at hrest
    exact hs.finished_iff.mpr (List.append_eq_nil_iff.mp (List.cons.inj hrest).2.symm).2

end ChunkStream

namespace Reader

variable {σ : Type}

/-- The reader of the payload: of an encoding the one that is encoded. -/
def source : Reader σ → Reader σ
  | ⟨.chunked inner, stream⟩ => ⟨inner, ChunkStream.source stream⟩
  | reader => reader

/-- How far the checksum of the payload is. -/
def tally? (reader : Reader σ) : Option Tally :=
  match reader.source with
  | ⟨.checksummed _, c⟩ => some (Checksummed.tally c)
  | _ => none

/-- The payload was read to its end. -/
def AtEnd (reader : Reader σ) : Prop := ∃ tally, reader.tally? = some tally ∧ tally.finished = true

/-- What is at its end is so by the reader of its payload. -/
theorem AtEnd.source {reader : Reader σ} (h : reader.AtEnd) : reader.source.AtEnd := by
  obtain ⟨tally, htally, hfinished⟩ := h
  refine ⟨tally, ?_, hfinished⟩
  -- The payload of an encoding with a checksum is not encoded once more.
  rcases reader with ⟨layers, state⟩
  cases layers with
  | memory | caller | checksummed => exact htally
  | chunked inner =>
    cases inner with
    | checksummed => exact htally
    | memory | caller | chunked => exact absurd htally (by simp [tally?, Reader.source])

variable [ByteSource σ]

/-- What a reading of `n` bytes puts forward for the checksum, if anything. -/
def verdict (reader : Reader σ) (n : Nat) (shared : Shared) : Option (Outcome Bytes) :=
  let (outcome, later, _) := reader.read n shared
  match reader.tally?, later.tally? with
  | some before, some after => before.verdict outcome.failure? after
  | _, _ => none

/-- A reader of the body, or of an encoding of it with these trailers. -/
inductive Reads (body : Body σ) (trailers : List Trailer) : Reader σ → Prop where
  | direct {layers : Layers} {c : Checksummed (layers.State σ)} {payload : Bytes}
      (h : body.HasDelivered ⟨.checksummed layers, c⟩ payload) :
      Reads body trailers ⟨.checksummed layers, c⟩
  | encoding {layers : Layers} {stream : ChunkStream (Checksummed (layers.State σ))}
      {context : ChunkContext} {payload : Bytes}
      (hdelivered : body.HasDelivered ⟨.checksummed layers, stream.source⟩ payload)
      (hsums : stream.Sums context) (hsize : context.chunkSize ≠ 0)
      (htrailers : context.trailers = trailers) :
      Reads body trailers ⟨.chunked (.checksummed layers), stream⟩

/-- What a reading does to the checksum and to its value. -/
structure Advances (body : Body σ) (trailers : List Trailer) (id : TrailerId) (reader : Reader σ) (n : Nat)
    (shared : Shared) : Prop where
  reads : (reader.read n shared).2.1.Reads body trailers
  known : id < (reader.read n shared).2.2.trailers.length
  value : (reader.read n shared).2.2.trailer? id = (shared.trailer? id).or (reader.verdict n shared)
  /-- A checksum that is finished was so before, or is the verdict. -/
  finished : ∀ tally, (reader.read n shared).2.1.tally? = some tally → tally.finished = true →
    reader.tally? = some tally
      ∨ reader.verdict n shared = some (.ok (Base64.encode tally.digest.finish))

variable {body : Body σ} {trailers : List Trailer} {id : TrailerId} {reader later : Reader σ} {n : Nat}
  {shared shared' : Shared} {outcome : Outcome Bytes} {ρ : Type} {c c' : Checksummed ρ}

/-- A reading advances the checksum, if it leaves a reader of the body and its checksum is judged. -/
theorem Advances.of_judged (hread : reader.read n shared = (outcome, later, shared'))
    (hlater : later.Reads body trailers) (hbefore : reader.tally? = some c.tally)
    (hafter : later.tally? = some c'.tally)
    (hjudged : Checksummed.Judged c.tally (shared.trailer? id) id outcome.failure? c' shared') :
    Advances body trailers id reader n shared := by
  have hverdict : reader.verdict n shared = c.tally.verdict outcome.failure? c'.tally := by
    rw [verdict, hread]
    simp only [hbefore, hafter]
  constructor
  · rw [hread]
    exact hlater
  · rw [hread]
    exact hjudged.known
  · rw [hread, hverdict]
    exact hjudged.value
  · rw [hread, hverdict, hbefore]
    intro tally htally hfinished
    obtain rfl := Option.some.inj (hafter.symm.trans htally)
    cases hstart : c.tally.finished with
    | true => exact .inl (by rw [hjudged.finished hstart])
    | false => exact .inr (by simp [Tally.verdict, hstart, hfinished])

/-- Cancelling leaves the checksum as it is. -/
theorem Reads.cancel (h : reader.Reads body trailers) (hcancel : reader.cancel? = some later) :
    later.Reads body trailers ∧ later.tally? = reader.tally? := by
  cases h with
  | direct => exact absurd hcancel (by simp [cancel?])
  | encoding hdelivered hsums hsize htrailers =>
    obtain rfl := Option.some.inj hcancel
    refine ⟨.encoding hdelivered ⟨hsums.context, fun hphase => ?_⟩ hsize htrailers, rfl⟩
    exact absurd hphase (by simp [ChunkStream.cancel])

theorem read_chunked {layers : Layers} {stream stream' : ChunkStream (layers.State σ)}
    (hpull : ChunkStream.pull layers.pull n stream shared = (outcome, stream', shared')) :
    Reader.read n ⟨.chunked layers, stream⟩ shared = (outcome, ⟨.chunked layers, stream'⟩, shared') := by
  have hpull' : (Layers.chunked layers).pull n stream shared = (outcome, stream', shared') := hpull
  rw [read, hpull']

/-- **One reading.** The value of the checksum is the one it had, or else the verdict of the reading. A
reader of the body itself and one of an encoding are the two cases; the latter may read its source many
times, and `ChunkStream.Sums.keeps` says that this is judged as one reading. -/
theorem Reads.advances {stream : StreamId} {inner : Body σ} (hfresh : id ∉ inner.promises)
    (h : reader.Reads (.checksummed stream inner id) trailers) (hknown : id < shared.trailers.length)
    (n : Nat) : Advances (.checksummed stream inner id) trailers id reader n shared := by
  -- The checksum is read directly or by the stream that encodes the body; both keep that it is judged.
  cases h with
  | @direct layers c payload hdelivered =>
    obtain ⟨layers', c₁, heq, htrailer, -, -⟩ := hdelivered.exists_checksum hfresh
    cases heq
    subst htrailer
    have hends := Body.HasDelivered.keeps hfresh layers _ _ n c shared
      ⟨⟨payload, hdelivered⟩, .refl hknown⟩
    rcases hpull : Checksummed.pull layers.pull n c shared with ⟨outcome, c', shared'⟩
    rw [hpull] at hends
    obtain ⟨⟨payload', hdelivered'⟩, hjudged⟩ := ends_iff.mp hends
    exact .of_judged (read_checksummed hpull) (.direct hdelivered') rfl rfl hjudged
  | @encoding layers s context payload hdelivered hsums hsize htrailers =>
    obtain ⟨layers', c₁, heq, htrailer, -, -⟩ := hdelivered.exists_checksum hfresh
    cases heq
    subst htrailer
    have hends := ChunkStream.Sums.keeps hsize (Body.HasDelivered.keeps hfresh layers _ _)
      (fun failure c shared h hfinished => ⟨h.1, h.2.of_finished hfinished (some failure)⟩) n s shared
      ⟨hsums, ⟨payload, hdelivered⟩, .refl hknown⟩
    rcases hpull : ChunkStream.pull (Checksummed.pull layers.pull) n s shared with ⟨outcome, s', shared'⟩
    rw [hpull] at hends
    have hread : read n ⟨.chunked (.checksummed layers), s⟩ shared
        = (outcome, ⟨.chunked (.checksummed layers), s'⟩, shared') := read_chunked hpull
    obtain ⟨hsums', ⟨payload', hdelivered'⟩, hjudged⟩ := ends_iff.mp hends
    exact .of_judged hread (.encoding hdelivered' hsums' hsize htrailers) rfl rfl hjudged

/-- The checksum is that of the bytes of the body that were delivered. -/
theorem Reads.exists_payload {stream : StreamId} {inner : Body σ} (hfresh : id ∉ inner.promises)
    (h : reader.Reads (.checksummed stream inner id) trailers) :
    ∃ payload tally, (Body.checksummed stream inner id).HasDelivered reader.source payload
      ∧ reader.tally? = some tally ∧ tally.digest = ({} : Sha256).update payload := by
  cases h with
  | direct hdelivered =>
    obtain ⟨layers, c, heq, -, hdigest, -⟩ := hdelivered.exists_checksum hfresh
    cases heq
    exact ⟨_, _, hdelivered, rfl, hdigest⟩
  | encoding hdelivered =>
    obtain ⟨layers, c, heq, -, hdigest, -⟩ := hdelivered.exists_checksum hfresh
    cases heq
    exact ⟨_, _, hdelivered, rfl, hdigest⟩

end Reader

/-- Some reader has delivered a payload with this checksum to its end. -/
def Body.HasChecksum {σ : Type} [ByteSource σ] (body : Body σ) (checksum : Bytes) : Prop :=
  ∃ reader payload, body.HasDelivered reader payload ∧ reader.AtEnd ∧ checksum = sha256Base64 payload

/-- A verdict without a failure is the checksum of what was delivered. It is put forward at the end of the
payload only, so what was delivered is all of it. -/
theorem Reader.Reads.hasChecksum {σ : Type} [ByteSource σ] {trailers : List Trailer} {id : TrailerId}
    {reader : Reader σ} {n : Nat} {shared : Shared} {stream : StreamId} {inner : Body σ}
    (hfresh : id ∉ inner.promises)
    (h : (reader.read n shared).2.1.Reads (.checksummed stream inner id) trailers) {checksum : Bytes}
    (hverdict : reader.verdict n shared = some (.ok checksum)) :
    (Body.checksummed stream inner id).HasChecksum checksum := by
  obtain ⟨payload, after, hdelivered, hafter, hdigest⟩ := h.exists_payload hfresh
  rw [Reader.verdict] at hverdict
  simp only [hafter] at hverdict
  cases hbefore : reader.tally? with
  | none => simp [hbefore] at hverdict
  | some before =>
    simp only [hbefore] at hverdict
    obtain ⟨hfinished, hchecksum⟩ := Tally.of_verdict_eq_ok hverdict
    have hend : (reader.read n shared).2.1.AtEnd := ⟨after, hafter, hfinished⟩
    refine ⟨_, payload, hdelivered, hend.source, ?_⟩
    rw [hchecksum, hdigest]
    rfl

end SigV4
