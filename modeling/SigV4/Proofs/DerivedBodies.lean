import SigV4.Proofs.Reading

/-!
# Bodies made of layers

A body is a stream in any number of layers: checksums that are computed and encodings, in any order. Each
layer has a stream of its own, and asks the body below for a reader unless it was asked before:

* **`Body.Derived`**: a body is `origin` or one more layer around a derived body. A layer is made after all
  below it, so that its stream is younger.
* **`Body.Derived.openReader_eq_none`**: none of the layers around a one-shot stream has a reader once the
  stream was opened.
* **`Body.Derived.wasOpened_openReader`**: asking a body for a reader marks its stream and all streams
  below it.
-/

namespace SigV4

/-! ## Opening counts -/

namespace Shared

variable {shared : Shared} {id other : StreamId}

/-- A new stream was never opened, and the others are as before. -/
theorem openingCount_newStream (shared : Shared) (id : StreamId) :
    shared.newStream.2.openingCount id = shared.openingCount id := by
  show ((shared.openings ++ [0])[id]?).getD 0 = (shared.openings[id]?).getD 0
  rcases Nat.lt_trichotomy id shared.openings.length with hlt | rfl | hgt
  · rw [List.getElem?_append_left hlt]
  · simp
  · rw [List.getElem?_eq_none (by rw [List.length_append, List.length_singleton]; omega),
      List.getElem?_eq_none (by omega)]

/-- Counting the opening of one stream leaves the others alone. -/
theorem openingCount_countOpening_of_ne (h : id ≠ other) :
    (shared.countOpening id).openingCount other = shared.openingCount other := by
  show ((shared.openings.modify id (· + 1))[other]?).getD 0 = _
  rw [List.getElem?_modify_ne _ _ h]
  rfl

theorem openingCount_countOpening_self (hid : id < shared.openings.length) :
    (shared.countOpening id).openingCount id = shared.openingCount id + 1 := by
  show ((shared.openings.modify id (· + 1))[id]?).getD 0 = (shared.openings[id]?).getD 0 + 1
  rw [List.getElem?_modify_eq, List.getElem?_eq_getElem hid]
  rfl

theorem wasOpened_eq_false_iff : shared.wasOpened id = false ↔ shared.openingCount id = 0 := by
  simp [wasOpened]

/-- An opening marks its own stream and no other. -/
theorem wasOpened_countOpening (hid : id < shared.openings.length) :
    (shared.countOpening id).wasOpened other = true ↔ other = id ∨ shared.wasOpened other = true := by
  by_cases hother : other = id
  · subst hother
    simp [wasOpened, openingCount_countOpening_self hid]
  · rw [wasOpened, openingCount_countOpening_of_ne (Ne.symm hother), ← wasOpened]
    simp [hother]

end Shared

/-! ## Layers around a stream

Bodies that are made from one stream have layers around it, each with a stream of its own that is
younger than those below. -/

namespace Body

variable {σ : Type} {body inner origin : Body σ} {id : StreamId} {shared : Shared}

/-- The stream of a layer and the body below it. -/
def layer? : Body σ → Option (StreamId × Body σ)
  | empty | bytes _ | stream .. => none
  | checksummed id inner _ => some (id, inner)
  | chunked id payload _ => some (id, payload)

/-- A layer can be read again exactly if the body below it can. -/
theorem replayable_of_layer (h : body.layer? = some (id, inner)) :
    body.replayable = inner.replayable := by
  cases body with
  | checksummed _ inner _ =>
    obtain ⟨rfl, rfl⟩ := Prod.mk.inj (Option.some.inj h)
    rfl
  | chunked _ payload _ =>
    obtain ⟨rfl, rfl⟩ := Prod.mk.inj (Option.some.inj h)
    rfl
  | empty | bytes | stream => exact absurd h (by simp [layer?])

/-- A layer adds its own stream in front of those below it. -/
theorem streamIds_of_layer (h : body.layer? = some (id, inner)) :
    body.streamId? = some id ∧ body.streamIds = id :: inner.streamIds := by
  cases body with
  | checksummed _ inner _ =>
    obtain ⟨rfl, rfl⟩ := Prod.mk.inj (Option.some.inj h)
    exact ⟨rfl, rfl⟩
  | chunked _ payload _ =>
    obtain ⟨rfl, rfl⟩ := Prod.mk.inj (Option.some.inj h)
    exact ⟨rfl, rfl⟩
  | empty | bytes | stream => exact absurd h (by simp [layer?])

/-- An aws-chunked body can be opened at all. -/
def Startable (body : Body σ) : Prop :=
  ∀ id payload context, body = .chunked id payload context → context.chunkSize ≠ 0

/-- A layer that was not asked before marks its stream and asks the body below. Without a reader below it
has none, and with one it has one, unless the size of its chunks is zero. -/
theorem openReader_of_layer (h : body.layer? = some (id, inner))
    (hunread : body.consumed shared = false) :
    (body.openReader shared).2 = (inner.openReader (shared.countOpening id)).2
      ∧ ((inner.openReader (shared.countOpening id)).1 = .ok none → (body.openReader shared).1 = .ok none)
      ∧ (body.Startable → ∀ reader, (inner.openReader (shared.countOpening id)).1 = .ok (some reader) →
        ∃ outer, (body.openReader shared).1 = .ok (some outer)) := by
  -- Both kinds of layers open the body below and hand on what is not a reader.
  cases body with
  | checksummed outer below trailer =>
    obtain ⟨rfl, rfl⟩ := Prod.mk.inj (Option.some.inj h)
    rw [openReader.eq_def, hunread, if_neg Bool.false_ne_true]
    dsimp only
    rcases below.openReader (shared.countOpening outer) with ⟨opened, shared'⟩
    cases opened with
    | error failure => exact ⟨rfl, fun h => absurd h (by simp), fun _ _ h => absurd h (by simp)⟩
    | ok reader =>
      cases reader with
      | none => exact ⟨rfl, fun _ => rfl, fun _ _ h => absurd h (by simp)⟩
      | some reader => exact ⟨rfl, fun h => absurd h (by simp), fun _ _ _ => ⟨_, rfl⟩⟩
  | chunked outer below context =>
    obtain ⟨rfl, rfl⟩ := Prod.mk.inj (Option.some.inj h)
    rw [openReader.eq_def, hunread, if_neg Bool.false_ne_true]
    dsimp only
    rcases below.openReader (shared.countOpening outer) with ⟨opened, shared'⟩
    cases opened with
    | error failure => exact ⟨rfl, fun h => absurd h (by simp), fun _ _ h => absurd h (by simp)⟩
    | ok reader =>
      cases reader with
      | none => exact ⟨rfl, fun _ => rfl, fun _ _ h => absurd h (by simp)⟩
      | some reader =>
        refine ⟨rfl, ?_, fun hstart _ _ => ?_⟩
        · dsimp only
          cases ChunkStream.start (some reader.state) context with
          | error failure => exact fun h => absurd h (by simp)
          | ok stream => exact fun h => absurd h (by simp)
        · -- Starting a stream can fail in this one way.
          have hsize := hstart _ _ _ rfl
          simp only [ChunkStream.start, hsize, if_false]
          exact ⟨_, rfl⟩
  | empty | bytes | stream => exact absurd h (by simp [layer?])

/-- The body is `origin` in any number of layers, each made after the ones below it. -/
inductive Derived (origin : Body σ) : Body σ → Prop where
  | origin : Derived origin origin
  | layer {body inner : Body σ} {id : StreamId} (hlayer : body.layer? = some (id, inner))
      (hyounger : ∀ other ∈ inner.streamIds, other < id) (hstart : body.Startable)
      (hinner : Derived origin inner) : Derived origin body

namespace Derived

/-- However many layers there are, the body can be read again exactly if the origin can. The induction is on
the layers, as in what follows. -/
theorem replayable_eq (h : Derived origin body) : body.replayable = origin.replayable := by
  induction h with
  | origin => rfl
  | layer hlayer _ _ _ ih => rw [replayable_of_layer hlayer, ih]

/-- The streams of the origin are among those of the derived body. -/
theorem streamIds_subset (h : Derived origin body) : origin.streamIds ⊆ body.streamIds := by
  induction h with
  | origin => exact List.Subset.refl _
  | layer hlayer _ _ _ ih =>
    rw [(streamIds_of_layer hlayer).2]
    exact List.subset_cons_of_subset _ ih

/-- What a derived body encodes is derived too, unless the origin is an encoding itself. So unwrapping a
body leads to another derived body. -/
theorem payload (h : Derived origin body) (horigin : origin.payload? = none) {payload : Body σ}
    (hpayload : body.payload? = some payload) : Derived origin payload := by
  cases h with
  | origin => exact absurd hpayload (by simp [horigin])
  | layer hlayer _ _ hinner =>
    cases body with
    | chunked _ encoded _ =>
      obtain ⟨rfl, rfl⟩ := Prod.mk.inj (Option.some.inj hlayer)
      rwa [← Option.some.inj hpayload]
    | empty | bytes | stream | checksummed => exact absurd hpayload (by simp [payload?])

end Derived

/-! ## Asking a derived body for a reader

The layers are marked from the outside inward, and the stream itself is opened last. -/

/-- A one-shot layer goes by the mark of its own stream, not by those below it. -/
theorem consumed_of_layer (h : body.layer? = some (id, inner)) (hreplayable : body.replayable = false) :
    body.consumed shared = shared.wasOpened id := by
  rw [consumed, hreplayable, (streamIds_of_layer h).1]
  rfl

/-- A body that was read returns no reader and marks nothing. -/
theorem openReader_of_consumed (h : body.consumed shared = true) :
    body.openReader shared = (.ok none, shared) := by
  rw [openReader.eq_def, h, if_pos rfl]

namespace Derived

variable {length : Option UInt64} {sources : Nat → Option σ}

theorem mem_streamIds (h : Derived (.stream id length false sources) body) : id ∈ body.streamIds :=
  h.streamIds_subset List.mem_cons_self

/-- It is the oldest of them, since layers are younger than what they are put around. -/
theorem le_of_mem_streamIds (h : Derived (.stream id length false sources) body) :
    ∀ other ∈ body.streamIds, id ≤ other := by
  induction h with
  | origin =>
    intro other hother
    exact Nat.le_of_eq (List.mem_singleton.mp hother).symm
  | layer hlayer hyounger _ hinner ih =>
    intro other hother
    rw [(streamIds_of_layer hlayer).2] at hother
    rcases List.mem_cons.mp hother with rfl | hother
    · exact Nat.le_of_lt (hyounger id hinner.mem_streamIds)
    · exact ih other hother

/-- A derived body has a stream of its own, which is asked whether the body was read. -/
theorem exists_streamId (h : Derived (.stream id length false sources) body) :
    ∃ outermost, body.streamId? = some outermost ∧ outermost ∈ body.streamIds := by
  cases h with
  | origin => exact ⟨id, rfl, List.mem_cons_self⟩
  | layer hlayer _ _ _ =>
    obtain ⟨hstream, hids⟩ := streamIds_of_layer hlayer
    exact ⟨_, hstream, by rw [hids]; exact List.mem_cons_self⟩

/-- Once the stream was opened, none of its layers has a reader. A layer may not know of it and ask the body
below, but at the bottom the stream itself has none. The induction is on the layers, for all states. -/
theorem openReader_eq_none (h : Derived (.stream id length false sources) body)
    (hopened : shared.wasOpened id = true) : (body.openReader shared).1 = .ok none := by
  induction h generalizing shared with
  | origin =>
    have hconsumed : (stream id length false sources).consumed shared = true := by
      rw [consumed]
      simpa [replayable, streamId?] using hopened
    rw [openReader_of_consumed hconsumed]
  | @layer body inner outer hlayer hyounger hstart hinner ih =>
    cases hread : body.consumed shared with
    | true => rw [openReader_of_consumed hread]
    -- The mark of this layer is not that of the stream, so the stream is still marked below.
    | false =>
      have hne : outer ≠ id := Nat.ne_of_gt (hyounger id hinner.mem_streamIds)
      refine (openReader_of_layer hlayer hread).2.1 (ih ?_)
      rwa [Shared.wasOpened, Shared.openingCount_countOpening_of_ne hne]

/-- The factory of the stream is asked only if it was never asked before. So whatever layer is opened, its
count does not go beyond one. -/
theorem openingCount_openReader (h : Derived (.stream id length false sources) body)
    (hcount : shared.openingCount id ≤ 1) : (body.openReader shared).2.openingCount id ≤ 1 := by
  induction h generalizing shared with
  | origin =>
    cases hread : (stream id length false sources).consumed shared with
    | true => rwa [openReader_of_consumed hread]
    | false =>
      have hunread : shared.openingCount id = 0 := by
        simpa [consumed, replayable, streamId?, Shared.wasOpened] using hread
      rw [openReader, hread, if_neg Bool.false_ne_true]
      -- A stream that is not in the state is not counted either.
      by_cases hid : id < shared.openings.length
      · have hone : (shared.countOpening id).openingCount id = 1 := by
          rw [Shared.openingCount_countOpening_self hid, hunread]
        exact Nat.le_of_eq hone
      · show (((shared.countOpening id).openings)[id]?).getD 0 ≤ 1
        have hlength : (shared.countOpening id).openings.length ≤ id := by
          rw [Shared.length_countOpening]
          exact Nat.le_of_not_lt hid
        rw [List.getElem?_eq_none hlength]
        exact Nat.zero_le 1
  | @layer body inner outer hlayer hyounger hstart hinner ih =>
    cases hread : body.consumed shared with
    | true => rwa [openReader_of_consumed hread]
    | false =>
      -- A layer counts its own stream, which is younger than the one in question.
      have hne : outer ≠ id := Nat.ne_of_gt (hyounger id hinner.mem_streamIds)
      rw [(openReader_of_layer hlayer hread).1]
      refine ih ?_
      rwa [Shared.openingCount_countOpening_of_ne hne]

theorem length_openReader (h : Derived (.stream id length false sources) body) :
    (body.openReader shared).2.openings.length = shared.openings.length := by
  induction h generalizing shared with
  | origin =>
    cases hread : (stream id length false sources).consumed shared with
    | true => rw [openReader_of_consumed hread]
    | false =>
      rw [openReader, hread, if_neg Bool.false_ne_true]
      exact Shared.length_countOpening shared id
  | @layer body inner outer hlayer hyounger hstart hinner ih =>
    cases hread : body.consumed shared with
    | true => rw [openReader_of_consumed hread]
    | false => rw [(openReader_of_layer hlayer hread).1, ih, Shared.length_countOpening]

/-- The streams below a stream that is marked are marked. -/
def MarkedDown (ids : List StreamId) (shared : Shared) : Prop :=
  ids.Pairwise fun outer below => shared.wasOpened outer = true → shared.wasOpened below = true

/-- **Asking a body for a reader marks its stream and all streams below it**, and no others. A layer that is
marked does not ask the body below; then the streams below are marked already. -/
theorem wasOpened_openReader (h : Derived (.stream id length false sources) body)
    (hknown : body.KnownIn shared) (hdown : MarkedDown body.streamIds shared) (other : StreamId) :
    (body.openReader shared).2.wasOpened other = true
      ↔ other ∈ body.streamIds ∨ shared.wasOpened other = true := by
  induction h generalizing shared with
  | origin =>
    have hid : id < shared.openings.length := hknown id List.mem_cons_self
    cases hread : (stream id length false sources).consumed shared with
    | true =>
      have hopened : shared.wasOpened id = true := by
        simpa [consumed, replayable, streamId?] using hread
      rw [openReader_of_consumed hread]
      constructor
      · exact .inr
      · rintro (hother | hother)
        · rwa [List.mem_singleton.mp hother]
        · exact hother
    | false =>
      rw [openReader, hread, if_neg Bool.false_ne_true]
      exact (Shared.wasOpened_countOpening hid).trans (or_congr_left List.mem_singleton.symm)
  | @layer body inner outer hlayer hyounger hstart hinner ih =>
    have hids := (streamIds_of_layer hlayer).2
    rw [MarkedDown, hids, List.pairwise_cons] at hdown
    rw [KnownIn, hids] at hknown
    obtain ⟨hid, hknown'⟩ := knownIn_of_layer hknown
    cases hread : body.consumed shared with
    | true =>
      have hreplayable := (Derived.layer hlayer hyounger hstart hinner).replayable_eq
      -- A layer that is refused was opened before, and with it all the streams below it.
      have hopened : shared.wasOpened outer = true := by
        rw [← consumed_of_layer hlayer hreplayable, hread]
      rw [openReader_of_consumed hread, hids]
      constructor
      · exact .inr
      · rintro (hother | hother)
        · rcases List.mem_cons.mp hother with rfl | hother
          · exact hopened
          · exact hdown.1 other hother hopened
        · exact hother
    | false =>
      -- The layers below do not see the mark of this one.
      have hsame (below : StreamId) (hbelow : below ∈ inner.streamIds) :
          (shared.countOpening outer).wasOpened below = shared.wasOpened below := by
        rw [Shared.wasOpened, Shared.wasOpened,
          Shared.openingCount_countOpening_of_ne (Nat.ne_of_gt (hyounger below hbelow))]
      have hdown' : MarkedDown inner.streamIds (shared.countOpening outer) := by
        refine hdown.2.imp_of_mem fun ha hb hmarked => ?_
        rwa [hsame _ ha, hsame _ hb]
      rw [(openReader_of_layer hlayer hread).1, ih hknown' hdown', Shared.wasOpened_countOpening hid, hids,
        List.mem_cons]
      exact or_left_comm.trans or_assoc.symm

/-- A body none of whose streams was opened has a reader, if the factory has a source. Layers that are
unread ask down to the stream, and its factory is asked for the first time. -/
theorem exists_openReader (h : Derived (.stream id length false sources) body)
    (hsource : sources 0 ≠ none)
    (hunread : ∀ other ∈ body.streamIds, shared.wasOpened other = false) :
    ∃ reader, (body.openReader shared).1 = .ok (some reader) := by
  induction h generalizing shared with
  | origin =>
    have hid := hunread id List.mem_cons_self
    have hread : (stream id length false sources).consumed shared = false := by
      simpa [consumed, replayable, streamId?] using hid
    obtain ⟨source, hsource⟩ := Option.ne_none_iff_exists'.mp hsource
    rw [openReader, hread, if_neg Bool.false_ne_true, Shared.wasOpened_eq_false_iff.mp hid, hsource]
    exact ⟨_, rfl⟩
  | @layer body inner outer hlayer hyounger hstart hinner ih =>
    have hids := (streamIds_of_layer hlayer).2
    rw [hids] at hunread
    have hreplayable := (Derived.layer hlayer hyounger hstart hinner).replayable_eq
    have hread : body.consumed shared = false := by
      rw [consumed_of_layer hlayer hreplayable, hunread outer List.mem_cons_self]
    -- Counting the layer's own stream marks none of those below it.
    have hunread' (below : StreamId) (hbelow : below ∈ inner.streamIds) :
        (shared.countOpening outer).wasOpened below = false := by
      rw [Shared.wasOpened, Shared.openingCount_countOpening_of_ne (Nat.ne_of_gt (hyounger below hbelow))]
      exact hunread below (List.mem_cons_of_mem outer hbelow)
    obtain ⟨reader, hreader⟩ := ih hunread'
    exact (openReader_of_layer hlayer hread).2.2 hstart reader hreader

end Derived

end Body

end SigV4
