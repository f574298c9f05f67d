import SigV4.Proofs.Reading

/-!
# Checksums that readers compute

However many checksums are stacked upon a source, a reader hands on what the source hands out, and at the
end of the payload every one of them is settled to the SHA-256 of the whole payload:

* **`Checksummed.supplies`**: a checksum takes nothing out of what is read.
* **`Layers.Hashes`**: the invariant. The digests have taken in what was read so far, on every layer.
* **`Layers.Computes.leadsTo`**: so a reading that returns nothing leaves all checksums settled, whatever
  other readers of the same body did in between (`Layers.Computes.mono`).
* **`Body.computes_of_openReader`**: a reader that was just opened computes all that its body promises.
-/

namespace SigV4

/-- The text of a checksum: the digest in Base64. -/
def sha256Base64 (message : Bytes) : Bytes := Base64.encode (sha256 message)

/-! ## Trailers that readers settle -/

namespace Shared

variable {shared later : Shared} {payload : Bytes} {ids : List TrailerId} {id : TrailerId}

/-- These trailers are settled to the checksum of the payload. -/
def Computed (shared : Shared) (payload : Bytes) (ids : List TrailerId) : Prop :=
  ∀ id ∈ ids, shared.trailer? id = some (.ok (sha256Base64 payload))

/-- These trailers are settled so, or no reader has come to settle them. -/
def Expects (shared : Shared) (payload : Bytes) (ids : List TrailerId) : Prop :=
  ∀ id ∈ ids, shared.trailers[id]? = some .computedByReaders
    ∨ shared.trailer? id = some (.ok (sha256Base64 payload))

/-- What is settled stays settled, so nothing that happens later takes a checksum away. -/
theorem Computed.mono (h : shared.Computed payload ids) (hlater : shared.SettledIn later) :
    later.Computed payload ids :=
  fun id hid => hlater id _ (h id hid)

/-- Only the trailers matter. Opening a stream, for example, changes other parts of what readers share. -/
theorem Expects.of_trailers (h : shared.Expects payload ids) (hsame : later.trailers = shared.trailers) :
    later.Expects payload ids := by
  intro id hid
  rw [trailer?, hsame]
  exact h id hid

/-- A reader that is done settles its trailer to the checksum. If another reader was done before, the
trailer has the very same value already. -/
theorem Expects.trailer?_settle (h : shared.Expects payload ids) (hid : id ∈ ids) :
    (shared.settle id (.ok (sha256Base64 payload))).trailer? id = some (.ok (sha256Base64 payload)) := by
  rcases h id hid with hopen | hsettled
  · have hnone : shared.trailer? id = none := by
      rw [trailer?, hopen]
      rfl
    have hlt : id < shared.trailers.length := (List.getElem?_eq_some_iff.mp hopen).1
    rw [trailer?_settle_self hlt, hnone]
    rfl
  · exact settledIn_settle shared id _ id _ hsettled

/-- Settling one more trailer, where the others are settled. These are what a finished reader has on the
layers below. -/
theorem Expects.computed_settle (h : shared.Expects payload ids) (hid : id ∈ ids)
    {others : List TrailerId} (hothers : shared.Computed payload others) :
    (shared.settle id (.ok (sha256Base64 payload))).Computed payload (id :: others) := by
  intro other hother
  rcases List.mem_cons.mp hother with rfl | hother
  · exact h.trailer?_settle hid
  · exact hothers.mono (settledIn_settle shared id _) other hother

/-- A checksum that comes to be known is the one that was expected. The others are as they were, settled or
waiting. -/
theorem Expects.settle (h : shared.Expects payload ids) (hid : id ∈ ids) :
    (shared.settle id (.ok (sha256Base64 payload))).Expects payload ids := by
  intro other hother
  by_cases hsame : other = id
  · subst hsame
    exact .inr (h.trailer?_settle hid)
  · rcases h other hother with hopen | hsettled
    · left
      unfold Shared.settle
      split
      · exact hopen
      · rwa [List.getElem?_set_ne (Ne.symm hsame)]
    · exact .inr (settledIn_settle shared id _ other _ hsettled)

/-- Giving up the others changes nothing about trailers that are kept. A trailer is given up only if nothing
is left that could settle it. -/
theorem Expects.giveUp (h : shared.Expects payload ids) {kept : List TrailerId} (hkept : ids ⊆ kept) :
    (shared.giveUp kept).Expects payload ids := by
  intro id hid
  rcases h id hid with hopen | hsettled
  · left
    simp [Shared.giveUp, hopen, hkept hid]
  · exact .inr (trailer?_giveUp hsettled)

end Shared

/-! ## One checksum -/

namespace Checksummed

variable {ρ : Type} {inner : Pull ρ} {c : Checksummed ρ} {payload : Bytes}

/-- What is left to be read through a checksum. -/
def Left (inner : Pull ρ) (c : Checksummed ρ) (rest : Bytes) : Prop :=
  if c.finished then rest = [] else Supplies inner c.inner rest

/-- A checksum hands on what its source supplies, piece by piece. A reading without a piece is the end of
the source, and there the trailer is settled and nothing more is read. -/
theorem supplies (hinner : Supplies inner c.inner payload) (hfresh : c.finished = false) :
    Supplies (Checksummed.pull inner) c payload := by
  refine ⟨Left inner, ?_, ?_⟩
  · -- A reading is one of the source, unless the source was read to its end before.
    intro c rest n shared hleft hn
    unfold Left at hleft
    rw [Checksummed.pull]
    split at hleft
    next hfinished =>
      rw [if_pos hfinished]
      refine ⟨[], [], c, shared, rfl, hleft, Nat.zero_le n, fun _ => hleft, ?_, .refl shared⟩
      rw [Left, if_pos hfinished]
    next hopen =>
      obtain ⟨piece, rest', source', shared', hpull, hrest, hlength, hend, hsource', hsettled⟩ :=
        hleft.pull hn shared
      rw [if_neg hopen, hpull]
      -- An empty piece is the end of the source, so nothing is left for the checksum either.
      cases piece with
      | nil =>
        refine ⟨[], rest', _, _, rfl, hrest, hlength, hend, ?_,
          hsettled.trans (Shared.settledIn_settle _ _ _)⟩
        rw [Left, if_pos rfl, ← hend rfl, hrest, List.nil_append]
      | cons b bytes =>
        refine ⟨b :: bytes, rest', _, _, rfl, hrest, hlength, hend, ?_, hsettled⟩
        rw [Left, if_neg hopen]
        exact hsource'
  · rw [Left, hfresh, if_neg Bool.false_ne_true]
    exact hinner

end Checksummed

/-! ## Checksums on every layer

Checksums may be stacked, and each of them settles a trailer of its own. The relation is by
recursion on the layers, as a reading is. -/

namespace Layers

variable {σ : Type} {payload done : Bytes} {ids : List TrailerId} {shared later : Shared}

/-- The layers are checksums upon a source. Each has `done` in its digest, or it is finished and settled
to the checksum of the payload, and so are those below it. -/
def Hashes (payload done : Bytes) (shared : Shared) : (layers : Layers) → layers.State σ → Prop
  | memory, _ | caller, _ => True
  | checksummed inner, state =>
    if Checksummed.finished state then shared.Computed payload ((checksummed inner).promises state)
    else Checksummed.digest state = ({} : Sha256).update done
      ∧ inner.Hashes payload done shared (Checksummed.inner state)
  | chunked _, _ => False

/-- A finished layer answers for all the layers below it. -/
theorem hashes_of_finished {inner : Layers} {c : Checksummed (inner.State σ)} (h : c.finished = true) :
    (checksummed inner).Hashes payload done shared c
      ↔ shared.Computed payload (c.trailer :: inner.promises c.inner) :=
  iff_of_eq (if_pos h)

/-- A layer that is not finished has taken in what was read, and so have the layers below it. -/
theorem hashes_of_open {inner : Layers} {c : Checksummed (inner.State σ)} (h : ¬c.finished = true) :
    (checksummed inner).Hashes payload done shared c
      ↔ c.digest = ({} : Sha256).update done ∧ inner.Hashes payload done shared c.inner :=
  iff_of_eq (if_neg h)

/-- Other readers may settle trailers meanwhile. A finished layer keeps the values that it relies on, and an
open one relies on none. The induction is on the layers. -/
theorem Hashes.mono {layers : Layers} {state : layers.State σ} (h : layers.Hashes payload done shared state)
    (hlater : shared.SettledIn later) : layers.Hashes payload done later state := by
  induction layers with
  | memory => trivial
  | caller => trivial
  | checksummed inner ih =>
    by_cases hfinished : Checksummed.finished state = true
    · rw [hashes_of_finished hfinished] at h ⊢
      exact h.mono hlater
    · rw [hashes_of_open hfinished] at h ⊢
      exact ⟨h.1, ih h.2⟩
  | chunked inner ih => exact h.elim

variable [ByteSource σ]

/-- What a reading makes of the checksums. -/
structure Hashed (payload done : Bytes) (ids : List TrailerId) (shared : Shared) (layers : Layers)
    (state : layers.State σ) (piece : Bytes) (state' : layers.State σ) (shared' : Shared) : Prop where
  hashes : layers.Hashes payload (done ++ piece) shared' state'
  promises : layers.promises state' = layers.promises state
  expects : shared'.Expects payload ids
  /-- At the end of the payload they are settled. -/
  computed : piece = [] → shared'.Computed payload (layers.promises state)

/-- **A reading takes its piece into every digest**, and settles all of them where there is none. The layers
are read from the top, and each reads the one below it once; so the induction on the layers gives what the
reading below has done, and one more digest or one more trailer is added to it. -/
theorem Hashes.pull {layers : Layers} {state state' : layers.State σ} {shared' : Shared} {n : Nat}
    {piece : Bytes} (h : layers.Hashes payload done shared state)
    (hids : layers.promises state ⊆ ids) (hexpects : shared.Expects payload ids)
    (hpull : layers.pull n state shared = (.ok piece, state', shared'))
    (hend : piece = [] → done = payload) :
    Hashed payload done ids shared layers state piece state' shared' := by
  induction layers generalizing piece shared' with
  | memory =>
    obtain ⟨-, hstate⟩ := Prod.mk.inj hpull
    obtain ⟨-, rfl⟩ := Prod.mk.inj hstate
    exact ⟨trivial, rfl, hexpects, fun _ _ hid => absurd hid List.not_mem_nil⟩
  | caller =>
    obtain ⟨-, hstate⟩ := Prod.mk.inj hpull
    obtain ⟨-, rfl⟩ := Prod.mk.inj hstate
    exact ⟨trivial, rfl, hexpects, fun _ _ hid => absurd hid List.not_mem_nil⟩
  | checksummed inner ih =>
    obtain ⟨htrailer, hbelow⟩ := List.cons_subset.mp hids
    unfold Layers.pull Checksummed.pull at hpull
    split at hpull
    -- The layer was read to its end before, so nothing happens.
    next hfinished =>
      obtain ⟨rfl, rfl, rfl⟩ := Pull.ok_inj hpull
      have hcomputed := (hashes_of_finished hfinished).mp h
      exact ⟨(hashes_of_finished hfinished).mpr hcomputed, rfl, hexpects, fun _ => hcomputed⟩
    next hopen =>
      obtain ⟨hdigest, hinner⟩ := (hashes_of_open hopen).mp h
      split at hpull
      next => exact absurd (Prod.mk.inj hpull).1 (by simp)
      next source shared₁ hread =>
        -- The payload is at its end, and all of it is in the digest.
        obtain ⟨rfl, rfl, rfl⟩ := Pull.ok_inj hpull
        have hread' := ih hinner hbelow hread hend
        have hvalue : Base64.encode (Checksummed.digest state).finish = sha256Base64 payload := by
          rw [hdigest, hend rfl]
          rfl
        have hpromises : Checksummed.trailer state :: inner.promises source
            = Checksummed.trailer state :: inner.promises (Checksummed.inner state) :=
          congrArg (Checksummed.trailer state :: ·) hread'.promises
        have hcomputed := hread'.expects.computed_settle htrailer (hread'.computed rfl)
        rw [hvalue]
        refine ⟨(hashes_of_finished rfl).mpr ?_, hpromises, hread'.expects.settle htrailer,
          fun _ => hcomputed⟩
        show Shared.Computed _ payload (Checksummed.trailer state :: inner.promises source)
        rwa [hpromises]
      next b bytes source shared₁ hread =>
        obtain ⟨rfl, rfl, rfl⟩ := Pull.ok_inj hpull
        -- All digests below have taken in the piece, and so does this one.
        have hread' := ih hinner hbelow hread hend
        have hdigest' : (Checksummed.digest state).update (b :: bytes)
            = ({} : Sha256).update (done ++ b :: bytes) := by
          rw [hdigest, Sha256.update_append]
        refine ⟨?_, congrArg (Checksummed.trailer state :: ·) hread'.promises, hread'.expects,
          fun hnil => absurd hnil (by simp)⟩
        apply (hashes_of_open _).mpr
        · exact ⟨hdigest', hread'.hashes⟩
        · exact hopen
  | chunked inner ih => exact h.elim

/-- The layers supply the rest of the payload and compute these checksums of all of it. -/
structure Computes (payload : Bytes) (ids : List TrailerId) (layers : Layers) (state : layers.State σ)
    (shared : Shared) : Prop where
  progress : ∃ done rest, payload = done ++ rest ∧ Supplies layers.pull state rest
    ∧ layers.Hashes payload done shared state
  promises : layers.promises state = ids
  expects : shared.Expects payload ids

/-- Other readers do not get in the way: what they change is which trailers are settled, and they settle
them to the values that are expected. -/
theorem Computes.mono {layers : Layers} {state : layers.State σ}
    (h : layers.Computes payload ids state shared) (hlater : shared.SettledIn later)
    (hexpects : later.Expects payload ids) : layers.Computes payload ids state later := by
  obtain ⟨done, rest, hpayload, hsupplies, hhashes⟩ := h.progress
  exact ⟨⟨done, rest, hpayload, hsupplies, hhashes.mono hlater⟩, h.promises, hexpects⟩

/-- **Reading leads to the checksums**: they are known when there is nothing more to read. The digests have
taken in the text read so far, and at the end of the supply this is the whole payload. -/
theorem Computes.leadsTo (layers : Layers) (payload : Bytes) (ids : List TrailerId) :
    LeadsTo (layers.pull (σ := σ)) (layers.Computes payload ids) fun shared =>
      shared.Computed payload ids := by
  intro n state shared piece state' shared' hn h hpull
  obtain ⟨done, rest, hpayload, hsupplies, hhashes⟩ := h.progress
  obtain ⟨piece₁, rest', state₁, shared₁, hpull₁, hrest, -, hend, hsupplies', -⟩ :=
    hsupplies.pull hn shared
  -- The supply speaks about the same reading, so the piece is the next part of the payload.
  obtain ⟨rfl, rfl, rfl⟩ := Pull.ok_inj (hpull.symm.trans hpull₁)
  have hdone (hnil : piece = []) : done = payload := by rw [hpayload, hend hnil, List.append_nil]
  have hhashed := hhashes.pull (fun _ hid => h.promises ▸ hid) h.expects hpull hdone
  refine ⟨⟨⟨done ++ piece, rest', ?_, hsupplies', hhashed.hashes⟩, ?_, hhashed.expects⟩, fun hnil => ?_⟩
  · rw [hpayload, hrest, List.append_assoc]
  · rw [hhashed.promises, h.promises]
  · rw [← h.promises]
    exact hhashed.computed hnil

end Layers

/-! ## Readers of a body -/

namespace Body

variable {σ : Type} [ByteSource σ] {body : Body σ} {payload : Bytes} {ids : List TrailerId}
  {shared opened : Shared} {reader : Reader σ}

/-- Every reader of the body is supplied with this payload; a one-shot stream has only one. -/
def Offers (payload : Bytes) : Body σ → Prop
  | empty => payload = []
  | bytes content => payload = content
  | stream _ _ replayable sources =>
    ∀ count source, (replayable = false → count = 0) → sources count = some source →
      Supplies ByteSource.pull source payload
  | checksummed _ inner _ => inner.Offers payload
  | chunked .. => False

/-- A body that offers a payload is no encoding, so nothing is unwrapped when it is signed. -/
theorem payload?_of_offers (h : body.Offers payload) : body.payload? = none := by
  cases body with
  | chunked => exact h.elim
  | empty | bytes | stream | checksummed => rfl

/-- What was just opened has the whole payload before it, and computes a checksum for each trailer that the
body promises. The induction is on the body: a wrapped body opens the one inside, and adds a digest that has
taken in nothing yet. -/
theorem computes_of_openReader (h : body.Offers payload) (hexpects : shared.Expects payload body.promises)
    (hopen : body.openReader shared = (.ok (some reader), opened)) :
    Supplies reader.layers.pull reader.state payload
      ∧ reader.layers.Computes payload body.promises reader.state opened := by
  have htrailers := body.trailers_openReader shared
  rw [hopen] at htrailers
  -- The trailers that were promised are those of the body, so it is left to look at the reader.
  suffices hreader : Supplies reader.layers.pull reader.state payload
      ∧ reader.layers.Hashes payload [] opened reader.state
      ∧ reader.layers.promises reader.state = body.promises by
    obtain ⟨hsupplies, hhashes, hpromises⟩ := hreader
    exact ⟨hsupplies, ⟨[], payload, rfl, hsupplies, hhashes⟩, hpromises, hexpects.of_trailers htrailers⟩
  clear hexpects htrailers
  induction body generalizing shared reader with
  | empty =>
    have hpayload : payload = [] := h
    obtain ⟨hreader, -⟩ := Prod.mk.inj hopen
    obtain rfl := Option.some.inj (Except.ok.inj hreader)
    rw [hpayload]
    exact ⟨supplies_memory [], trivial, rfl⟩
  | bytes content =>
    have hpayload : payload = content := h
    obtain ⟨hreader, -⟩ := Prod.mk.inj hopen
    obtain rfl := Option.some.inj (Except.ok.inj hreader)
    rw [hpayload]
    exact ⟨supplies_memory content, trivial, rfl⟩
  | stream id length replayable sources =>
    obtain ⟨hunread, source, hsource, rfl⟩ := exists_source_of_stream hopen
    -- A one-shot stream that lets itself be opened was not opened before.
    have hfirst : replayable = false → shared.openingCount id = 0 := by
      rintro rfl
      simpa [consumed, Body.replayable, streamId?, Shared.wasOpened] using hunread
    exact ⟨h _ source hfirst hsource, trivial, rfl⟩
  | checksummed id inner trailer ih =>
    obtain ⟨below, rfl, hinner⟩ := exists_reader_of_checksummed hopen
    obtain ⟨hsupplies, hhashes, hpromises⟩ := ih h hinner
    refine ⟨Checksummed.supplies hsupplies rfl, ?_, ?_⟩
    · exact ⟨rfl, hhashes⟩
    · exact congrArg (trailer :: ·) hpromises
  | chunked id inner context ih => exact h.elim

end Body

end SigV4
