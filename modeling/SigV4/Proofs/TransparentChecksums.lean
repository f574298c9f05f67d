import SigV4.Proofs.Checksums

/-!
# When a checksum is transparent

A checksummed reader takes every empty answer of its source for the end, also one to a reading of no
length. So what it hands on is determined by what the source itself would answer:

* **`handedOn`**: the answers in front of the first empty one, and nothing from then on.
* **`Layers.hashing`**: the readers in question, checksums upon any source that have all taken in the
  same bytes. A body opens such readers (`Body.openReader_hashing`).
* **`Layers.pull_hashing_of_cons`**, **`Layers.pull_hashing_of_nil`**: one reading, of which the first
  goes through to every digest and the second settles all trailers.
* **`Layers.reads_hashing`**: the run, by induction on the lengths of the readings.
* **`Layers.transparent_iff`**: so the readings are those of the source exactly if that one answers
  nothing more behind its first empty answer.
-/

namespace SigV4

/-! ## The first empty answer

A list of answers falls into those in front of the first empty one and the rest. A checksum hands on
the first part. -/

/-- The pieces in front of the first empty one. -/
def untilEmpty (pieces : List Bytes) : List Bytes := pieces.takeWhile (!·.isEmpty)

/-- The pieces from the first empty one on. -/
def sinceEmpty (pieces : List Bytes) : List Bytes := pieces.dropWhile (!·.isEmpty)

/-- What is handed on by a reader that takes the first empty piece for the end. -/
def handedOn (pieces : List Bytes) : List Bytes :=
  untilEmpty pieces ++ List.replicate (sinceEmpty pieces).length []

section Pieces

variable {pieces : List Bytes} {b : UInt8} {bytes : Bytes}

@[simp] theorem untilEmpty_nil_cons : untilEmpty ([] :: pieces) = [] := rfl

@[simp] theorem untilEmpty_cons_cons :
    untilEmpty ((b :: bytes) :: pieces) = (b :: bytes) :: untilEmpty pieces := rfl

@[simp] theorem sinceEmpty_nil_cons : sinceEmpty ([] :: pieces) = [] :: pieces := rfl

@[simp] theorem sinceEmpty_cons_cons : sinceEmpty ((b :: bytes) :: pieces) = sinceEmpty pieces := rfl

/-- The pieces are those in front of the first empty one and the others. -/
theorem untilEmpty_append_sinceEmpty (pieces : List Bytes) :
    untilEmpty pieces ++ sinceEmpty pieces = pieces := List.takeWhile_append_dropWhile

/-- From an empty piece on nothing is handed on, though the readings go on. -/
theorem handedOn_nil_cons :
    handedOn ([] :: pieces) = [] :: List.replicate pieces.length [] := rfl

theorem handedOn_cons_cons :
    handedOn ((b :: bytes) :: pieces) = (b :: bytes) :: handedOn pieces := rfl

/-- Nothing is missing from what is handed on exactly if nothing more was to come. -/
theorem handedOn_eq_self_iff :
    handedOn pieces = pieces ↔ ∀ piece ∈ sinceEmpty pieces, piece = [] :=
  calc handedOn pieces = pieces
    _ ↔ handedOn pieces = untilEmpty pieces ++ sinceEmpty pieces := by
        rw [untilEmpty_append_sinceEmpty]
    _ ↔ sinceEmpty pieces = List.replicate (sinceEmpty pieces).length [] := by
        rw [handedOn, List.append_right_inj, eq_comm]
    _ ↔ ∀ piece ∈ sinceEmpty pieces, piece = [] := by
        rw [List.eq_replicate_iff, and_iff_right rfl]

end Pieces

/-! ## Settling many trailers

One empty answer settles the trailers of all checksums at once. -/

namespace Shared

variable {shared : Shared} {value : Outcome Bytes} {ids : List TrailerId} {id : TrailerId}

/-- Settles the trailers one after the other, the last one first. -/
def settleAll (shared : Shared) (ids : List TrailerId) (value : Outcome Bytes) : Shared :=
  ids.foldr (fun id shared => shared.settle id value) shared

theorem length_settleAll : (shared.settleAll ids value).trailers.length = shared.trailers.length := by
  induction ids with
  | nil => rfl
  | cons id ids ih => exact (length_settle _ id value).trans ih

/-- Of the trailers that wait for a reader, those in the list are settled. One that is in the list twice has
its value from the first time on, and it is the same value. -/
theorem trailer?_settleAll (hid : id ∈ ids) (hopen : shared.trailers[id]? = some .computedByReaders) :
    (shared.settleAll ids value).trailer? id = some value := by
  have hlt : id < shared.trailers.length := (List.getElem?_eq_some_iff.mp hopen).1
  have hnone : shared.trailer? id = none := by
    rw [trailer?, hopen]
    rfl
  -- A trailer may be in the list more than once, and is settled by then to the same value.
  have hany (others : List TrailerId) :
      (shared.settleAll others value).trailer? id = if id ∈ others then some value else none := by
    induction others with
    | nil => exact hnone
    | cons other others ih =>
      show ((shared.settleAll others value).settle other value).trailer? id = _
      -- Settling `other` is seen at `id` only if they are the same trailer.
      by_cases hsame : id = other
      · subst hsame
        rw [trailer?_settle_self (by rwa [length_settleAll]), ih, if_pos List.mem_cons_self]
        split
        · rfl
        · rfl
      · rw [trailer?_settle_of_ne hsame, ih]
        simp only [List.mem_cons, hsame, false_or]
  rw [hany, if_pos hid]

end Shared

/-! ## Checksums upon a source -/

namespace Checksummed

variable {ρ : Type} {inner : Pull ρ} {c : Checksummed ρ} {source : ρ} {shared shared' : Shared}
  {n : Nat}

/-- A piece goes through a checksum that is open, which takes it in. -/
theorem pull_of_cons (hopen : c.finished = false) {b : UInt8} {bytes : Bytes}
    (h : inner n c.inner shared = (.ok (b :: bytes), source, shared')) :
    Checksummed.pull inner n c shared
      = (.ok (b :: bytes), { c with inner := source, digest := c.digest.update (b :: bytes) },
        shared') := by
  rw [Checksummed.pull, hopen, if_neg Bool.false_ne_true, h]

/-- An empty piece closes the checksum and settles its trailer. The length that was asked for is not looked
at. -/
theorem pull_of_nil (hopen : c.finished = false)
    (h : inner n c.inner shared = (.ok [], source, shared')) :
    Checksummed.pull inner n c shared
      = (.ok [], { c with inner := source, finished := true },
        shared'.settle c.trailer (.ok (Base64.encode c.digest.finish))) := by
  rw [Checksummed.pull, hopen, if_neg Bool.false_ne_true, h]

end Checksummed

theorem Pull.length_reads {ρ : Type} (pull : Pull ρ) (lengths : List Nat) (source : ρ)
    (shared : Shared) :
    (Pull.reads pull lengths source shared).1.length = lengths.length := by
  induction lengths generalizing source shared with
  | nil => rfl
  | cons n lengths ih => exact congrArg Nat.succ (ih _ _)

/-- Readings that leave the trailers alone one by one do so in a row. -/
theorem Pull.reads_unshared {ρ : Type} {pull : Pull ρ}
    (hpull : ∀ n source shared, (pull n source shared).2.2 = shared) (lengths : List Nat) (source : ρ)
    (shared : Shared) : (Pull.reads pull lengths source shared).2.2 = shared := by
  induction lengths generalizing source shared with
  | nil => rfl
  | cons n lengths ih => exact (ih _ _).trans (hpull n source shared)

namespace Layers

variable {σ : Type} [ByteSource σ] {base : Layers} {source source' : base.State σ}
  {shared shared' : Shared} {done : Bytes} {id : TrailerId} {ids : List TrailerId} {n : Nat}

/-- As many checksums as there are trailers. -/
def withChecksums (base : Layers) : List TrailerId → Layers
  | [] => base
  | _ :: ids => checksummed (base.withChecksums ids)

/-- Checksums of these trailers upon a source, the first one outermost, with `done` in every digest. -/
def hashing (base : Layers) (done : Bytes) (source : base.State σ) :
    (ids : List TrailerId) → (base.withChecksums ids).State σ
  | [] => source
  | id :: ids =>
    ({ inner := base.hashing done source ids, trailer := id, digest := ({} : Sha256).update done } :
      Checksummed ((base.withChecksums ids).State σ))

/-- A checksum that read to the end of what it was given. -/
def exhausted (base : Layers) (done : Bytes) (source : base.State σ) :
    (ids : List TrailerId) → (base.withChecksums ids).State σ
  | [] => source
  | id :: ids =>
    ({ inner := base.exhausted done source ids, trailer := id, digest := ({} : Sha256).update done,
       finished := true } : Checksummed ((base.withChecksums ids).State σ))

/-- **A piece goes through all checksums**, and each takes it into its digest. The induction is on the
checksums, from the source outward: the piece that one hands on is the piece that the next one is given. -/
theorem pull_hashing_of_cons {b : UInt8} {bytes : Bytes}
    (h : base.pull n source shared = (.ok (b :: bytes), source', shared')) (ids : List TrailerId) :
    (base.withChecksums ids).pull n (base.hashing done source ids) shared
      = (.ok (b :: bytes), base.hashing (done ++ b :: bytes) source' ids, shared') := by
  induction ids with
  | nil => exact h
  | cons id ids ih =>
    -- The checksum upon the others sees the piece that they have handed on.
    refine (Checksummed.pull_of_cons rfl ih).trans ?_
    simp only [hashing, Sha256.update_append]
    rfl

/-- **An empty piece settles all trailers**, whatever the reading asked for. The innermost one is settled
first, and all of them to the same value, since all digests have taken in the same bytes. -/
theorem pull_hashing_of_nil (h : base.pull n source shared = (.ok [], source', shared'))
    (ids : List TrailerId) :
    (base.withChecksums ids).pull n (base.hashing done source ids) shared
      = (.ok [], base.exhausted done source' ids,
        shared'.settleAll ids (.ok (sha256Base64 done))) := by
  induction ids with
  | nil => exact h
  | cons id ids ih => exact Checksummed.pull_of_nil rfl ih

/-- A checksum that has settled its trailer does not ask its source again. -/
theorem reads_exhausted (lengths : List Nat) :
    Pull.reads (base.withChecksums (id :: ids)).pull lengths
        (base.exhausted done source (id :: ids)) shared
      = (List.replicate lengths.length (.ok []), base.exhausted done source (id :: ids), shared) := by
  induction lengths with
  | nil => rfl
  | cons n lengths ih =>
    have hpull : (base.withChecksums (id :: ids)).pull n
        (base.exhausted done source (id :: ids)) shared
        = (.ok [], base.exhausted done source (id :: ids), shared) := rfl
    simp only [Pull.reads, hpull, ih, List.length_cons, List.replicate_succ]

/-- What the source leaves when it is read up to its first empty answer. -/
def upToEmpty (base : Layers) (lengths : List Nat) (pieces : List Bytes) (source : base.State σ)
    (shared : Shared) : Shared :=
  (Pull.reads base.pull (lengths.take ((untilEmpty pieces).length + 1)) source shared).2.2

/-- **What readings through checksums come to**, by what the source itself would return. The induction is on
the lengths: a piece moves all digests on, and the first empty one ends the matter, since no checksum asks
its source again. -/
theorem reads_hashing (done : Bytes) (id : TrailerId) (ids : List TrailerId) {lengths : List Nat}
    {pieces : List Bytes}
    (hplain : (Pull.reads base.pull lengths source shared).1 = pieces.map .ok) :
    ∃ state, Pull.reads (base.withChecksums (id :: ids)).pull lengths
        (base.hashing done source (id :: ids)) shared
      = ((handedOn pieces).map .ok, state,
        if [] ∈ pieces then
          (base.upToEmpty lengths pieces source shared).settleAll (id :: ids)
            (.ok (sha256Base64 (done ++ (untilEmpty pieces).flatten)))
        else base.upToEmpty lengths pieces source shared) := by
  induction lengths generalizing done source shared pieces with
  | nil =>
    obtain rfl : pieces = [] := List.map_eq_nil_iff.mp hplain.symm
    exact ⟨base.hashing done source (id :: ids), rfl⟩
  | cons n lengths ih =>
    rcases hpull : base.pull n source shared with ⟨outcome, source₁, shared₁⟩
    simp only [Pull.reads, hpull] at hplain
    obtain ⟨piece, pieces, rfl, rfl, hrest⟩ := List.map_eq_cons_iff.mp hplain.symm
    -- The first empty piece decides: it closes every checksum, and all readings behind it return nothing.
    cases piece with
    | nil =>
      have hlength : pieces.length = lengths.length := by
        have hlengths := congrArg List.length hrest
        rwa [List.length_map, Pull.length_reads] at hlengths
      refine ⟨base.exhausted done source₁ (id :: ids), ?_⟩
      have hreached : base.upToEmpty (n :: lengths) ([] :: pieces) source shared = shared₁ := by
        simp only [upToEmpty, untilEmpty_nil_cons, List.length_nil, Nat.zero_add, List.take_succ_cons,
          List.take_zero, Pull.reads, hpull]
      rw [if_pos List.mem_cons_self, hreached, handedOn_nil_cons, hlength]
      simp only [Pull.reads, pull_hashing_of_nil hpull, reads_exhausted]
      simp
    | cons b bytes =>
      -- The piece is in every digest now, so the rest starts with more in them.
      obtain ⟨state, hreads⟩ := ih (done ++ b :: bytes) hrest.symm
      refine ⟨state, ?_⟩
      have hreached : base.upToEmpty (n :: lengths) ((b :: bytes) :: pieces) source shared
          = base.upToEmpty lengths pieces source₁ shared₁ := by
        simp only [upToEmpty, untilEmpty_cons_cons, List.length_cons, List.take_succ_cons, Pull.reads,
          hpull]
      simp only [Pull.reads, pull_hashing_of_cons hpull, hreads, hreached, handedOn_cons_cons]
      simp

end Layers

/-! ## Readers of a body -/

namespace Body

variable {σ : Type} {shared opened : Shared} {reader : Reader σ}

/-- The checksums that a body has outermost. -/
def outerTrailers : Body σ → List TrailerId
  | checksummed _ inner trailer => trailer :: inner.outerTrailers
  | empty | bytes _ | stream .. | chunked .. => []

/-- The body below these checksums. -/
def withoutChecksums : Body σ → Body σ
  | checksummed _ inner _ => inner.withoutChecksums
  | body => body

/-- A body opens its checksums upon a reader of the body below them. The digests are empty at first, which
is `Layers.hashing` of no bytes. -/
theorem openReader_hashing {body : Body σ}
    (hopen : body.openReader shared = (.ok (some reader), opened)) :
    ∃ (source : Reader σ) (before : Shared),
      body.withoutChecksums.openReader before = (.ok (some source), opened)
      ∧ reader = ⟨source.layers.withChecksums body.outerTrailers,
        source.layers.hashing [] source.state body.outerTrailers⟩ := by
  induction body generalizing shared reader with
  | empty => exact ⟨reader, shared, hopen, rfl⟩
  | bytes content => exact ⟨reader, shared, hopen, rfl⟩
  | stream id length replayable sources => exact ⟨reader, shared, hopen, rfl⟩
  | chunked id payload context => exact ⟨reader, shared, hopen, rfl⟩
  | checksummed id inner trailer ih =>
    obtain ⟨inside, rfl, hinner⟩ := exists_reader_of_checksummed hopen
    -- The reader inside is one of checksums already, and this one comes on top.
    obtain ⟨source, before, hbelow, rfl⟩ := ih hinner
    exact ⟨source, before, hbelow, rfl⟩

end Body

/-! ## When readings are transparent -/

/-- A source that supplies a payload is at its end with the first empty answer, if it is not asked for
nothing. -/
theorem Supplies.payload_of_reads {ρ : Type} {pull : Pull ρ} {source : ρ} {payload : Bytes}
    {shared : Shared} {lengths : List Nat} {pieces : List Bytes} (h : Supplies pull source payload)
    (hpositive : ∀ n ∈ lengths, 0 < n)
    (hreads : (Pull.reads pull lengths source shared).1 = pieces.map .ok) :
    (∀ piece ∈ sinceEmpty pieces, piece = [])
      ∧ ∃ rest, payload = pieces.flatten ++ rest ∧ ([] ∈ pieces → rest = []) := by
  induction lengths generalizing source payload shared pieces with
  | nil =>
    obtain rfl : pieces = [] := List.map_eq_nil_iff.mp hreads.symm
    exact ⟨by simp [sinceEmpty], payload, rfl, by simp⟩
  | cons n lengths ih =>
    obtain ⟨hn, hpositive⟩ := List.forall_mem_cons.mp hpositive
    obtain ⟨piece, rest, source₁, shared₁, hpull, hpayload, -, hend, hsource₁, -⟩ := h.pull hn shared
    simp only [Pull.reads, hpull] at hreads
    obtain ⟨piece', pieces, rfl, hpiece, hrest⟩ := List.map_eq_cons_iff.mp hreads.symm
    obtain rfl := Except.ok.inj hpiece
    -- The readings behind this one are readings of what the source has left.
    obtain ⟨hbehind, last, hlast, hnone⟩ := ih hsource₁ hpositive hrest.symm
    cases piece' with
    | nil =>
      -- Nothing is left of the payload, so there is nothing in the pieces behind this one.
      have hnil : pieces.flatten ++ last = [] := by rw [← hlast, ← hend rfl, hpayload, List.nil_append]
      obtain ⟨hpieces, rfl⟩ := List.append_eq_nil_iff.mp hnil
      refine ⟨?_, [], ?_, fun _ => rfl⟩
      · rw [sinceEmpty_nil_cons]
        exact List.forall_mem_cons.mpr ⟨rfl, List.flatten_eq_nil_iff.mp hpieces⟩
      · rw [hend rfl, List.flatten_cons, hpieces]
        rfl
    | cons b bytes =>
      refine ⟨?_, last, ?_, fun hmem => hnone (by simpa using hmem)⟩
      · rwa [sinceEmpty_cons_cons]
      · rw [hpayload, hlast, List.flatten_cons, List.append_assoc]

/-- Where only empty pieces follow the first empty one, nothing is missing in front of it. -/
theorem flatten_untilEmpty {pieces : List Bytes} (h : ∀ piece ∈ sinceEmpty pieces, piece = []) :
    (untilEmpty pieces).flatten = pieces.flatten := by
  conv_rhs => rw [← untilEmpty_append_sinceEmpty pieces]
  rw [List.flatten_append, List.flatten_eq_nil_iff.mpr h, List.append_nil]

namespace Layers

variable {σ : Type} [ByteSource σ] {base : Layers} {source : base.State σ} {shared : Shared}
  {ids : List TrailerId} {lengths : List Nat} {pieces : List Bytes}

/-- Readings through checksums that have taken in nothing yet: the outcomes, and the trailers then. -/
def readThrough (base : Layers) (ids : List TrailerId) (lengths : List Nat) (source : base.State σ)
    (shared : Shared) : List (Outcome Bytes) × Shared :=
  let (outcomes, _, shared) :=
    Pull.reads (base.withChecksums ids).pull lengths (base.hashing [] source ids) shared
  (outcomes, shared)

/-- What checksums make of readings in which the source itself would return `pieces`. -/
structure HandsOn (base : Layers) (ids : List TrailerId) (lengths : List Nat) (source : base.State σ)
    (shared : Shared) (pieces : List Bytes) : Prop where
  /-- From the first empty piece on nothing is returned. -/
  outcomes : (base.readThrough ids lengths source shared).1 = (handedOn pieces).map .ok
  /-- So nothing gets lost exactly if the source would return nothing more from then on. -/
  transparent : (base.readThrough ids lengths source shared).1
      = (Pull.reads base.pull lengths source shared).1 ↔ ∀ piece ∈ sinceEmpty pieces, piece = []
  /-- A trailer that the source has left open is settled with the first empty piece and not before, to
  the checksum of what was returned. -/
  settled : ∀ id ∈ ids,
    (base.upToEmpty lengths pieces source shared).trailers[id]? = some .computedByReaders →
    (base.readThrough ids lengths source shared).2.trailer? id
      = if [] ∈ pieces then some (.ok (sha256Base64 (untilEmpty pieces).flatten)) else none
  /-- A source of the caller's and content in memory leave all trailers as they are. -/
  unshared : base = memory ∨ base = caller → base.upToEmpty lengths pieces source shared = shared
  /-- A source that supplies a payload loses nothing if it is always asked for a byte at least. Then
  the trailers are settled when all of the payload was returned, to the checksum of all of it. -/
  supplied : ∀ payload, Supplies base.pull source payload → (∀ n ∈ lengths, 0 < n) →
    (base.readThrough ids lengths source shared).1 = (Pull.reads base.pull lengths source shared).1
      ∧ (untilEmpty pieces).flatten = pieces.flatten ∧ ([] ∈ pieces → pieces.flatten = payload)

/-- **Readings through checksums are those of the source exactly if it returns nothing more behind its
first empty answer**, for any source that does not fail and any number of checksums. -/
theorem transparent_iff (hids : ids ≠ [])
    (hplain : (Pull.reads base.pull lengths source shared).1 = pieces.map .ok) :
    base.HandsOn ids lengths source shared pieces := by
  obtain ⟨id, ids, rfl⟩ := List.exists_cons_of_ne_nil hids
  obtain ⟨state, hreads⟩ := reads_hashing [] id ids hplain
  have hthrough : base.readThrough (id :: ids) lengths source shared
      = ((handedOn pieces).map .ok,
        if [] ∈ pieces then
          (base.upToEmpty lengths pieces source shared).settleAll (id :: ids)
            (.ok (sha256Base64 (untilEmpty pieces).flatten))
        else base.upToEmpty lengths pieces source shared) := by
    rw [readThrough, hreads]
    rfl
  -- Outcomes that all succeed are the same if their pieces are.
  have htransparent : (base.readThrough (id :: ids) lengths source shared).1
      = (Pull.reads base.pull lengths source shared).1 ↔ ∀ piece ∈ sinceEmpty pieces, piece = [] := by
    rw [hthrough, hplain, ← handedOn_eq_self_iff]
    exact List.map_inj_right fun _ _ => Except.ok.inj
  refine ⟨by rw [hthrough], htransparent, ?_, ?_, ?_⟩
  · intro other hother hopen
    rw [hthrough]
    dsimp only
    split
    · exact Shared.trailer?_settleAll hother hopen
    · rw [Shared.trailer?, hopen]
      rfl
  · rintro (rfl | rfl)
    · exact Pull.reads_unshared (fun _ _ _ => rfl) _ source shared
    · exact Pull.reads_unshared (fun _ _ _ => rfl) _ source shared
  · -- A source that is always asked for a byte at least is at its end with its first empty answer.
    intro payload hsupplies hpositive
    obtain ⟨hbehind, rest, hpayload, hnone⟩ := hsupplies.payload_of_reads hpositive hplain
    refine ⟨htransparent.mpr hbehind, flatten_untilEmpty hbehind, fun hempty => ?_⟩
    rw [hpayload, hnone hempty, List.append_nil]

/-- Content in memory, which answers a reading of no length with nothing and keeps its place. -/
def sampleSource : caller.State MemorySource := MemorySource.mk (ascii "abc")

/-- Two trailers that readers are to compute. -/
def twoComputed : Shared where
  trailers := [.computedByReaders, .computedByReaders]

theorem transparent_iff_of_two_checksums :
    [0, 1] ≠ []
    ∧ (Pull.reads caller.pull [2, 5, 0, 5] sampleSource twoComputed).1
      = [ascii "ab", ascii "c", [], []].map .ok
    ∧ caller.HandsOn [0, 1] [2, 5, 0, 5] sampleSource twoComputed [ascii "ab", ascii "c", [], []] := by
  have hplain : (Pull.reads caller.pull [2, 5, 0, 5] sampleSource twoComputed).1
      = [ascii "ab", ascii "c", [], []].map .ok := rfl
  exact ⟨by decide, hplain, transparent_iff (by decide) hplain⟩

/-- A reading of no length loses the rest of the content, and the trailer is that of no content. -/
theorem empty_reading_truncates :
    Supplies (caller.pull (σ := MemorySource)) sampleSource (ascii "abc")
    ∧ (Pull.reads caller.pull [0, 5] sampleSource twoComputed).1 = [.ok [], .ok (ascii "abc")]
    ∧ (caller.readThrough [0] [0, 5] sampleSource twoComputed).1 = [.ok [], .ok []]
    ∧ (caller.readThrough [0] [0, 5] sampleSource twoComputed).2.trailer? 0
      = some (.ok (sha256Base64 []))
    ∧ sha256Base64 [] ≠ sha256Base64 (ascii "abc") := by
  refine ⟨supplies_memory _, ?_, ?_, ?_, ?_⟩
  · rfl
  · rfl
  · rfl
  · decide +kernel

end Layers

end SigV4
