import SigV4.Proofs.DerivedBodies
import SigV4.Proofs.Refusals
import SigV4.Proofs.Sessions
import SigV4.Proofs.Verification

/-!
# One-shot streams in a session

A one-shot stream is opened once, however many bodies are derived from it:

* **`OneShot`**: the invariant. The streams that are marked as opened are those of the bodies that were
  asked for a reader, with all below them. Every action keeps it (`OneShot.step`), and so does every run.
* **`Session.factory_is_asked_once`**: so the caller's factory is asked once, by no signing, and every
  reader that is asked for later is refused.
* **`Session.sign_alreadyRead_iff`**: signing looks at the outermost stream only. It refuses a body that
  was asked for a reader, or is part of one that was, and it signs an exhausted stream in a new layer.
-/

namespace SigV4

/-! ## What is in hand

Copies and layers of one stream share its mark. The invariant says which bodies are in hand and
which marks are set. -/

/-- Each stream of the list has the same streams below it wherever it stands. -/
def Chained (below : StreamId → List StreamId) : List StreamId → Prop
  | [] => True
  | id :: ids => below id = ids ∧ Chained below ids

namespace Chained

variable {below below' : StreamId → List StreamId} {ids : List StreamId} {id : StreamId}

/-- Only what is below the streams of the list matters. -/
theorem congr (h : Chained below ids) (hsame : ∀ id ∈ ids, below' id = below id) :
    Chained below' ids := by
  induction ids with
  | nil => exact h
  | cons id ids ih =>
    refine ⟨?_, ih h.2 fun other hother => hsame other (List.mem_cons_of_mem id hother)⟩
    rw [hsame id List.mem_cons_self, h.1]

/-- Another stream, with `ids` below it. -/
def extend (below : StreamId → List StreamId) (id : StreamId) (ids : List StreamId) :
    StreamId → List StreamId :=
  fun other => if other = id then ids else below other

/-- A younger stream stands nowhere in the list, so it may have anything below it. -/
theorem extend_of_lt {others : List StreamId} (h : Chained below ids) (hlt : ∀ other ∈ ids, other < id) :
    Chained (extend below id others) ids :=
  h.congr fun other hother => if_neg (Nat.ne_of_lt (hlt other hother))

/-- A younger stream with the list below it makes a longer list. -/
theorem extend_cons (h : Chained below ids) (hlt : ∀ other ∈ ids, other < id) :
    Chained (extend below id ids) (id :: ids) :=
  ⟨if_pos rfl, h.extend_of_lt hlt⟩

/-- What is below a stream of the list is in the list. -/
theorem subset_of_mem (h : Chained below ids) (hid : id ∈ ids) : below id ⊆ ids := by
  induction ids with
  | nil => exact absurd hid List.not_mem_nil
  | cons first ids ih =>
    rcases List.mem_cons.mp hid with rfl | hid
    · rw [h.1]
      exact List.subset_cons_self _ _
    · exact List.subset_cons_of_subset first (ih h.2 hid)

/-- What stands behind a stream of the list is below it. -/
theorem pairwise (h : Chained below ids) : ids.Pairwise fun outer inner => inner ∈ below outer := by
  induction ids with
  | nil => exact .nil
  | cons id ids ih =>
    refine .cons (fun other hother => ?_) (ih h.2)
    rwa [h.1]

end Chained

/-- A body that is derived from `origin`, all of whose streams were created. -/
structure InHand {σ : Type} (origin : Body σ) (below : StreamId → List StreamId) (shared : Shared)
    (body : Body σ) : Prop where
  derived : Body.Derived origin body
  known : body.KnownIn shared
  chained : Chained below body.streamIds

namespace InHand

variable {σ : Type} {origin body inner : Body σ} {below : StreamId → List StreamId}
  {shared later : Shared}

/-- What a body in hand encodes is in hand, as its streams are the ones below the first. -/
theorem payload (h : InHand origin below shared body) (horigin : origin.payload? = none)
    (hpayload : body.payload? = some inner) : InHand origin below shared inner := by
  have hderived := h.derived.payload horigin hpayload
  have hknown := h.known
  have hchained := h.chained
  cases body with
  | chunked id encoded context =>
    obtain rfl := Option.some.inj hpayload
    exact ⟨hderived, fun other hother => hknown other (List.mem_cons_of_mem id hother), hchained.2⟩
  | empty | bytes | stream | checksummed => exact absurd hpayload (by simp [Body.payload?])

/-- Streams that are created later do not concern a body in hand. -/
theorem mono (h : InHand origin below shared body)
    (hlength : shared.openings.length ≤ later.openings.length) : InHand origin below later body :=
  ⟨h.derived, fun id hid => Nat.lt_of_lt_of_le (h.known id hid) hlength, h.chained⟩

end InHand

namespace Session

variable {σ : Type}

/-- The bodies in hand, and those that were. -/
def bodies (session : Session σ) : List (Body σ) := session.requests.map (·.body) ++ session.asked

variable {session : Session σ} {request : Request σ}

theorem body_mem_bodies (h : request ∈ session.requests) : request.body ∈ session.bodies :=
  List.mem_append_left _ (List.mem_map_of_mem h)

theorem mem_bodies_hold {body : Body σ} {shared : Shared}
    (h : body ∈ (session.hold request shared).bodies) : body = request.body ∨ body ∈ session.bodies := by
  rw [bodies, hold, List.map_append, List.append_assoc, List.mem_append, List.mem_append] at h
  rcases h with h | h | h
  · exact .inr (List.mem_append_left _ h)
  · exact .inl (List.mem_singleton.mp h)
  · exact .inr (List.mem_append_right _ h)

end Session

/-- What is known of a session with bodies that are derived from one stream. -/
structure OneShot {σ : Type} (id : StreamId) (length : Option UInt64) (sources : Nat → Option σ)
    (session : Session σ) : Prop where
  inHand : ∃ below, ∀ body ∈ session.bodies,
    InHand (.stream id length false sources) below session.shared body
  /-- A stream was opened just if a body was asked for a reader that the stream is one of. -/
  opened : ∀ other, id ≤ other → (session.shared.wasOpened other = true
    ↔ ∃ body ∈ session.asked, other ∈ body.streamIds)
  once : session.shared.openingCount id ≤ 1

namespace OneShot

variable {σ : Type} {id : StreamId} {length : Option UInt64} {sources : Nat → Option σ}
  {session session' : Session σ}

/-- Nothing is new in hand, and no stream was opened or created. So all is as it was. -/
theorem congr (h : OneShot id length sources session)
    (hbodies : ∀ body ∈ session'.bodies, body ∈ session.bodies) (hasked : session'.asked = session.asked)
    (hopenings : session'.shared.openings = session.shared.openings) :
    OneShot id length sources session' := by
  obtain ⟨below, hinHand⟩ := h.inHand
  have hcount (other : StreamId) :
      session'.shared.openingCount other = session.shared.openingCount other := by
    rw [Shared.openingCount, hopenings]
    rfl
  refine ⟨⟨below, fun body hbody => (hinHand body (hbodies body hbody)).mono ?_⟩, ?_, ?_⟩
  · exact Nat.le_of_eq (congrArg List.length hopenings).symm
  · intro other hother
    rw [Shared.wasOpened, hcount, hasked]
    exact h.opened other hother
  · rw [hcount]
    exact h.once

theorem hold (h : OneShot id length sources session) {request held : Request σ}
    (hheld : held ∈ session.requests)
    (hbody : request.body = held.body ∨ held.body.payload? = some request.body) :
    OneShot id length sources (session.hold request session.shared) := by
  obtain ⟨below, hinHand⟩ := h.inHand
  refine ⟨⟨below, fun body hmem => ?_⟩, h.opened, h.once⟩
  have hin := hinHand held.body (Session.body_mem_bodies hheld)
  rcases Session.mem_bodies_hold hmem with rfl | hmem
  · rcases hbody with hbody | hbody
    · rwa [hbody]
    · exact hin.payload rfl hbody
  · exact hinHand body hmem

/-- A body is in hand that is made of one more layer, with a new stream. The new stream has the streams of
the inner body below it, and it is not marked, being younger than any that was opened. -/
theorem hold_layer (h : OneShot id length sources session) {request held : Request σ} {inner : Body σ}
    {shared : Shared} (hheld : held ∈ session.requests)
    (hinner : inner = held.body ∨ held.body.payload? = some inner)
    (hlayer : request.body.layer? = some (session.shared.openings.length, inner))
    (hstart : request.body.Startable) (hopenings : shared.openings = session.shared.openings ++ [0]) :
    OneShot id length sources (session.hold request shared) := by
  obtain ⟨below, hinHand⟩ := h.inHand
  -- The body below is one in hand, or the payload of one.
  have hin : InHand (.stream id length false sources) below session.shared inner := by
    have hbody := hinHand held.body (Session.body_mem_bodies hheld)
    rcases hinner with hinner | hinner
    · rwa [hinner]
    · exact hbody.payload rfl hinner
  -- The new stream stands behind the others and was not opened.
  have hcount (other : StreamId) : shared.openingCount other = session.shared.openingCount other := by
    rw [← Shared.openingCount_newStream session.shared other, Shared.openingCount, hopenings]
    rfl
  have hlength : shared.openings.length = session.shared.openings.length + 1 := by
    rw [hopenings, List.length_append, List.length_singleton]
  refine ⟨⟨Chained.extend below session.shared.openings.length inner.streamIds, fun body hmem => ?_⟩,
    ?_, ?_⟩
  · rcases Session.mem_bodies_hold hmem with rfl | hmem
    · have hids := (Body.streamIds_of_layer hlayer).2
      refine ⟨.layer hlayer hin.known hstart hin.derived, ?_, ?_⟩
      · -- Creating a stream marks none.
        intro other hother
        show other < shared.openings.length
        rw [hlength]
        rw [hids] at hother
        rcases List.mem_cons.mp hother with rfl | hother
        · exact Nat.lt_succ_self _
        · exact Nat.lt_succ_of_lt (hin.known other hother)
      · rw [hids]
        exact hin.chained.extend_cons hin.known
    · have hbody := hinHand body hmem
      have hlater : session.shared.openings.length ≤ shared.openings.length := by
        rw [hlength]
        exact Nat.le_succ _
      exact ⟨hbody.derived, (hbody.mono hlater).known, hbody.chained.extend_of_lt hbody.known⟩
  · intro other hother
    show shared.wasOpened other = true ↔ _
    rw [Shared.wasOpened, hcount]
    exact h.opened other hother
  · show shared.openingCount id ≤ 1
    rw [hcount]
    exact h.once

/-- Of a body in hand the marked streams are those from one of them on. A stream was marked together with
all that are below it, and it has the same below it wherever it stands. -/
theorem markedDown (h : OneShot id length sources session) {body : Body σ}
    (hbody : body ∈ session.bodies) : Body.Derived.MarkedDown body.streamIds session.shared := by
  obtain ⟨below, hinHand⟩ := h.inHand
  have hin := hinHand body hbody
  have hle := hin.derived.le_of_mem_streamIds
  refine hin.chained.pairwise.imp_of_mem fun {outer inner} houter hinner hbelow hopened => ?_
  -- The outer stream was marked with a body that has the same streams below it.
  obtain ⟨asked, hasked, hmem⟩ := (h.opened outer (hle outer houter)).mp hopened
  have hchained := (hinHand asked (List.mem_append_right _ hasked)).chained
  exact (h.opened inner (hle inner hinner)).mpr ⟨asked, hasked, hchained.subset_of_mem hmem hbelow⟩

/-- A body in hand is asked for a reader. Its streams are marked, and it counts among those that were asked
from then on. -/
theorem ask (h : OneShot id length sources session) {held : Request σ} (hheld : held ∈ session.requests)
    (readings : List (Reading σ)) :
    OneShot id length sources
      { session with
        readings := readings
        asked := session.asked ++ [held.body]
        shared := (held.body.openReader session.shared).2 } := by
  have hmem := Session.body_mem_bodies hheld
  obtain ⟨below, hinHand⟩ := h.inHand
  have hin := hinHand held.body hmem
  have hmarked := hin.derived.wasOpened_openReader hin.known (h.markedDown hmem)
  refine ⟨⟨below, fun body hbody => (hinHand body ?_).mono ?_⟩, ?_, ?_⟩
  · rw [Session.bodies, ← List.append_assoc] at hbody
    rcases List.mem_append.mp hbody with hbody | hbody
    · exact hbody
    · rwa [List.mem_singleton.mp hbody]
  · exact Nat.le_of_eq hin.derived.length_openReader.symm
  · intro other hother
    rw [hmarked, h.opened other hother]
    -- A stream is marked now if the body that is asked has it, or if it was marked before.
    constructor
    · rintro (hnew | ⟨body, hbody, hids⟩)
      · exact ⟨held.body, List.mem_append_right _ (List.mem_singleton.mpr rfl), hnew⟩
      · exact ⟨body, List.mem_append_left _ hbody, hids⟩
    · rintro ⟨body, hbody, hids⟩
      rcases List.mem_append.mp hbody with hbody | hbody
      · exact .inr ⟨body, hbody, hids⟩
      · rw [List.mem_singleton.mp hbody] at hids
        exact .inl hids
  · exact hin.derived.openingCount_openReader h.once

/-- The body of a request in hand is derived from the stream. -/
theorem derived_of_held (h : OneShot id length sources session) {held : Request σ}
    (hheld : held ∈ session.requests) :
    Body.Derived (.stream id length false sources) held.body := by
  obtain ⟨below, hinHand⟩ := h.inHand
  exact (hinHand held.body (Session.body_mem_bodies hheld)).derived

/-- So is the body that is signed for it, be it the body itself or what it encodes. -/
theorem derived_unwrapBody (h : OneShot id length sources session) {held : Request σ}
    (hheld : held ∈ session.requests) :
    Body.Derived (.stream id length false sources) (Signer.unwrapBody held).body := by
  rcases Signer.unwrapBody_body_eq_or held with hsame | hencoded
  · rw [hsame]
    exact h.derived_of_held hheld
  · exact (h.derived_of_held hheld).payload rfl hencoded

/-- So it is one-shot like the stream. -/
theorem replayable_unwrapBody (h : OneShot id length sources session) {held : Request σ}
    (hheld : held ∈ session.requests) : (Signer.unwrapBody held).body.replayable = false :=
  (h.derived_unwrapBody hheld).replayable_eq

/-- The stream was opened just if some body was asked for a reader. So as long as it was not opened, none
was asked. -/
theorem asked_eq_nil (h : OneShot id length sources session)
    (hunread : session.shared.openingCount id = 0) : session.asked = [] := by
  obtain ⟨below, hinHand⟩ := h.inHand
  refine List.eq_nil_iff_forall_not_mem.mpr fun body hbody => ?_
  have hmem := (hinHand body (List.mem_append_right _ hbody)).derived.mem_streamIds
  have hopened := (h.opened id (Nat.le_refl id)).mpr ⟨body, hbody, hmem⟩
  rw [Shared.wasOpened_eq_false_iff.mpr hunread] at hopened
  exact Bool.false_ne_true hopened

/-- A stream that was just created was not opened, and the one body in hand is the stream itself. -/
theorem of_ofSources {shared created : Shared} {body : Body σ}
    (hbody : Body.ofSources (some sources) length false shared = .ok (body, created))
    (hid : body.streamId? = some id) (template : Request σ) :
    OneShot id length sources { requests := [{ template with body }], shared := created } := by
  obtain ⟨rfl, rfl⟩ := Prod.mk.inj (Except.ok.inj hbody)
  obtain rfl := Option.some.inj hid
  -- The stream is a new one, so neither it nor any later one was opened.
  have hcount (other : StreamId) (hother : shared.openings.length ≤ other) :
      shared.newStream.2.openingCount other = 0 := by
    rw [Shared.openingCount_newStream, Shared.openingCount, List.getElem?_eq_none hother]
    rfl
  refine ⟨⟨fun _ => [], fun body hmem => ?_⟩, fun other hother => ?_, ?_⟩
  · rw [List.mem_singleton.mp hmem]
    refine ⟨.origin, fun other hother => ?_, rfl, trivial⟩
    rw [List.mem_singleton.mp hother]
    show shared.openings.length < (shared.openings ++ [0]).length
    rw [List.length_append]
    exact Nat.lt_succ_self _
  · refine iff_of_false ?_ (by simp)
    exact Bool.eq_false_iff.mp (Shared.wasOpened_eq_false_iff.mpr (hcount other hother))
  · show shared.newStream.2.openingCount shared.openings.length ≤ 1
    rw [hcount _ (Nat.le_refl _)]
    exact Nat.zero_le 1

variable [ByteSource σ]

/-- A request is signed, or signing fails. A one-shot body is never read to sign it, so it is returned as it
is or in one more layer. -/
theorem sign (h : OneShot id length sources session) {held : Request σ} (hheld : held ∈ session.requests)
    (clock : Clock) (config : Config) (identity : Identity) :
    OneShot id length sources
      (match Signer.sign clock config identity held session.shared with
        | (.ok signed, shared) => session.hold signed.request shared
        | (.error _, shared) => { session with shared }) := by
  have hpayload := Signer.unwrapBody_body_eq_or held
  rcases Signer.sign_of_one_shot (h.replayable_unwrapBody hheld) with
    ⟨failure, hsign⟩ | ⟨signed, hsign, hbody⟩ | ⟨signed, context, hsign, hsize, hbody⟩
  · rw [hsign]
    exact h
  · rw [hsign]
    exact h.hold hheld (by rwa [hbody])
  · rw [hsign]
    refine h.hold_layer hheld hpayload (by rw [hbody]; rfl) ?_ rfl
    intro id payload other hother
    rw [hbody] at hother
    obtain ⟨-, -, rfl⟩ := Body.chunked.inj hother
    exact hsize

/-- A request that was signed is in hand like any other. -/
theorem of_signed (h : OneShot id length sources session) {held : Request σ}
    (hheld : held ∈ session.requests) {clock : Clock} {config : Config} {identity : Identity}
    {signed : SignedRequest σ} {after : Shared}
    (hsign : Signer.sign clock config identity held session.shared = (.ok signed, after)) :
    OneShot id length sources (session.hold signed.request after)
      ∧ Body.Derived (.stream id length false sources) signed.request.body := by
  have hsigned := h.sign hheld clock config identity
  rw [hsign] at hsigned
  exact ⟨hsigned, hsigned.derived_of_held (List.mem_append_right _ (List.mem_singleton.mpr rfl))⟩

/-- Signing does not open the stream, whether or not it succeeds. -/
theorem openingCount_sign (h : OneShot id length sources session) {held : Request σ}
    (hheld : held ∈ session.requests) (clock : Clock) (config : Config) (identity : Identity) :
    (Signer.sign clock config identity held session.shared).2.openingCount id
      = session.shared.openingCount id := by
  rcases Signer.sign_of_one_shot (h.replayable_unwrapBody hheld) with
    ⟨failure, hsign⟩ | ⟨signed, hsign, -⟩ | ⟨signed, context, hsign, -⟩
  · rw [hsign]
  · rw [hsign]
  · rw [hsign]
    exact Shared.openingCount_newStream _ id

section Signed

variable {held : Request σ} {clock : Clock} {config : Config} {identity : Identity}
  {signed : SignedRequest σ} {after : Shared}

/-- What was signed after the stream was opened has no reader, though it was signed. -/
theorem openReader_signed_eq_none (h : OneShot id length sources session)
    (hheld : held ∈ session.requests)
    (hsign : Signer.sign clock config identity held session.shared = (.ok signed, after))
    (hopened : session.shared.openingCount id ≠ 0) :
    (signed.request.body.openReader after).1 = .ok none := by
  have hkept := h.openingCount_sign hheld clock config identity
  rw [hsign] at hkept
  refine (h.of_signed hheld hsign).2.openReader_eq_none ?_
  rw [Shared.wasOpened, hkept]
  exact bne_iff_ne.mpr hopened

/-- What was signed before has one, if the factory has a source. None of its streams is marked, so asking it
leads down to the stream. -/
theorem exists_openReader_signed (h : OneShot id length sources session)
    (hheld : held ∈ session.requests)
    (hsign : Signer.sign clock config identity held session.shared = (.ok signed, after))
    (hsource : sources 0 ≠ none) (hunread : session.shared.openingCount id = 0) :
    ∃ reader, (signed.request.body.openReader after).1 = .ok (some reader) := by
  obtain ⟨hsigned, hderived⟩ := h.of_signed hheld hsign
  refine hderived.exists_openReader hsource fun other hother => Bool.eq_false_iff.mpr fun hmarked => ?_
  -- A stream that is marked belongs to a body that was asked, and none was.
  obtain ⟨body, hbody, -⟩ :=
    (hsigned.opened other (hderived.le_of_mem_streamIds other hother)).mp hmarked
  have hasked : (session.hold signed.request after).asked = [] := h.asked_eq_nil hunread
  rw [hasked] at hbody
  exact List.not_mem_nil hbody

end Signed

/-- **Every action keeps the invariant.** There is one case for each action: it holds a body that was there
before or one more layer around one, asks a body for a reader, or leaves the bodies alone. -/
theorem step (h : OneShot id length sources session) (action : Action σ) :
    OneShot id length sources (session.step action) := by
  -- An action on a request or a reading that is not there does nothing.
  have hfound {α : Type} {found : Option α} {act : α → Session σ}
      (hact : ∀ a, found = some a → OneShot id length sources (act a)) :
      OneShot id length sources (found.elim session act) := Session.elim_keeps h hact
  cases action with
  | assemble held template =>
    exact hfound fun request hheld => h.hold (List.mem_of_getElem? hheld) (.inl rfl)
  | takePayload held =>
    refine hfound fun payload hpayload => ?_
    obtain ⟨request, hheld, hencoded⟩ := Option.bind_eq_some_iff.mp hpayload
    exact h.hold (List.mem_of_getElem? hheld) (.inr hencoded)
  | declareSha256 held =>
    refine hfound fun request hheld => ?_
    have hstart : (request.withSha256Trailer session.shared).1.body.Startable := by
      simp [Body.Startable, Request.withSha256Trailer]
    exact h.hold_layer (List.mem_of_getElem? hheld) (.inl rfl) rfl hstart rfl
  | sign held clock config identity =>
    exact hfound fun request hheld => h.sign (List.mem_of_getElem? hheld) clock config identity
  | openReader held =>
    exact hfound fun request hheld => h.ask (List.mem_of_getElem? hheld) _
  | read reading n =>
    refine hfound fun current _ => ?_
    exact h.congr (fun _ hbody => hbody) rfl (current.reader.openings_read n session.shared)
  | cancel reading =>
    refine hfound fun current _ => hfound fun reader _ => ?_
    exact h.congr (fun _ hbody => hbody) rfl rfl
  | close reading => exact h.congr (fun _ hbody => hbody) rfl rfl
  | discard held =>
    refine h.congr (fun body hbody => ?_) rfl rfl
    rcases List.mem_append.mp hbody with hbody | hbody
    · obtain ⟨request, hrequest, rfl⟩ := List.mem_map.mp hbody
      exact Session.body_mem_bodies (List.mem_of_mem_eraseIdx hrequest)
    · exact List.mem_append_right _ hbody

/-- **Every run keeps the invariant**, by induction on the actions. What is said of one-shot streams later
is said of a session that is reached, and goes by the invariant alone. -/
theorem run (h : OneShot id length sources session) (actions : List (Action σ)) :
    OneShot id length sources (session.run actions) :=
  Session.run_of_step (fun _ action h => h.step action) h actions

end OneShot

/-! ## One-shot streams in every run

What holds of sessions that satisfy the invariant holds after every run from a stream that was just
created. -/

namespace Session

variable {σ : Type} [ByteSource σ] {id : StreamId} {length : Option UInt64}
  {sources : Nat → Option σ} {shared created : Shared} {body : Body σ}

/-- **A one-shot stream is opened once.** However bodies are copied, wrapped, signed and opened, the factory
of the stream is asked at most once, signing does not ask it, and once it was asked every body in hand is
refused a reader. All three follow from the invariant of the run. -/
theorem factory_is_asked_once
    (hbody : Body.ofSources (some sources) length false shared = .ok (body, created))
    (hid : body.streamId? = some id) (template : Request σ) (actions : List (Action σ)) :
    let session := run { requests := [{ template with body }], shared := created } actions
    session.shared.openingCount id ≤ 1
    ∧ (∀ held ∈ session.requests, ∀ (clock : Clock) (config : Config) (identity : Identity),
      (Signer.sign clock config identity held session.shared).2.openingCount id
        = session.shared.openingCount id)
    ∧ (session.shared.openingCount id = 1 → ∀ held ∈ session.requests,
      (held.body.openReader session.shared).1 = .ok none) := by
  have h := (OneShot.of_ofSources hbody hid template).run actions
  refine ⟨h.once, fun held hheld clock config identity => ?_, fun hopened held hheld => ?_⟩
  · exact h.openingCount_sign hheld clock config identity
  · refine (h.derived_of_held hheld).openReader_eq_none ?_
    rw [Shared.wasOpened, hopened]
    rfl

/-- The stream that is opened is that of a copy, which was wrapped before. -/
def sampleActions : List (Action MemorySource) := [.declareSha256 0, .openReader 0]

def sampleSources (_ : Nat) : Option MemorySource := some ⟨ascii "abc"⟩

def sampleBody : Body MemorySource := .stream 0 (some 3) false sampleSources

def sampleStart : Session MemorySource where
  requests := [{ Signer.sampleRequest with body := sampleBody }]
  shared := { openings := [0] }

theorem ofSources_sampleSources :
    Body.ofSources (some sampleSources) (some 3) false {} = .ok (sampleBody, { openings := [0] }) := rfl

theorem streamId?_sampleBody : sampleBody.streamId? = some 0 := rfl

/-- The copy that was wrapped is opened, and the factory is asked through it. -/
theorem factory_is_asked_once_of_wrapped_copy :
    Body.ofSources (some sampleSources) (some 3) false {} = .ok (sampleBody, { openings := [0] })
    ∧ sampleBody.streamId? = some 0
    ∧ (sampleStart.run sampleActions).shared.openingCount 0 ≤ 1 := by
  have hasked := factory_is_asked_once ofSources_sampleSources streamId?_sampleBody Signer.sampleRequest
    sampleActions
  exact ⟨rfl, rfl, hasked.1⟩

/-- **Signing refuses a body just if its outermost stream belongs to a body that was asked for a
reader**, and what it returns can be opened just if the stream was not opened before. -/
theorem sign_alreadyRead_iff
    (hbody : Body.ofSources (some sources) length false shared = .ok (body, created))
    (hid : body.streamId? = some id) (hsource : sources 0 ≠ none) (template : Request σ)
    (actions : List (Action σ)) {config : Config} {identity : Identity} {credentials : Credentials}
    (hvalid : config.validate = .ok ())
    (hcredentials : Signer.identityCredentials identity = .ok credentials) :
    let session := run { requests := [{ template with body }], shared := created } actions
    ∀ held ∈ session.requests, ∀ clock : Clock,
      ((Signer.sign clock config identity held session.shared).1
          = .error (.unsignableBody .alreadyRead)
        ↔ ∃ asked ∈ session.asked, ∃ outermost ∈ asked.streamIds,
          (Signer.unwrapBody held).body.streamId? = some outermost)
      ∧ ∀ signed after, Signer.sign clock config identity held session.shared = (.ok signed, after) →
        ((∃ reader, (signed.request.body.openReader after).1 = .ok (some reader))
          ↔ session.shared.openingCount id = 0) := by
  intro session held hheld clock
  have h : OneShot id length sources session := (OneShot.of_ofSources hbody hid template).run actions
  have hreplayable := h.replayable_unwrapBody hheld
  constructor
  · rw [Signer.sign_eq_alreadyRead_iff hvalid hcredentials hreplayable]
    obtain ⟨outermost, hstream, hmem⟩ := (h.derived_unwrapBody hheld).exists_streamId
    -- Whether a one-shot body is taken for read is decided by the mark of its outermost stream.
    have hconsumed : (Signer.unwrapBody held).body.consumed session.shared
        = session.shared.wasOpened outermost := by
      rw [Body.consumed, hreplayable, hstream]
      rfl
    rw [hconsumed, h.opened outermost ((h.derived_unwrapBody hheld).le_of_mem_streamIds _ hmem)]
    constructor
    · rintro ⟨asked, hasked, hopened⟩
      exact ⟨asked, hasked, outermost, hopened, hstream⟩
    · -- A body has one outermost stream, so it is the same one.
      rintro ⟨asked, hasked, other, hopened, hother⟩
      obtain rfl := Option.some.inj (hstream.symm.trans hother)
      exact ⟨asked, hasked, hopened⟩
  · intro signed after hsign
    constructor
    · rintro ⟨reader, hreader⟩
      by_contra hopened
      have hnone := h.openReader_signed_eq_none hheld hsign hopened
      exact absurd (hreader.symm.trans hnone) (by simp)
    · exact h.exists_openReader_signed hheld hsign hsource

/-- No hash is prescribed, so that the trailer may be sent. -/
def sampleConfig : Config := { Signer.sampleConfig with hashOverride := none }

theorem validate_sampleConfig : sampleConfig.validate = .ok () := rfl

theorem identityCredentials_sample :
    Signer.identityCredentials (.credentials Signer.sampleCredentials) = .ok Signer.sampleCredentials :=
  rfl

/-- After the copy was opened, the original is refused and the copy too. -/
theorem sign_alreadyRead_iff_of_wrapped_copy :
    sampleSources 0 ≠ none
    ∧ ∀ held ∈ (sampleStart.run sampleActions).requests, ∀ clock : Clock,
      (Signer.sign clock sampleConfig (.credentials Signer.sampleCredentials) held
          (sampleStart.run sampleActions).shared).1 = .error (.unsignableBody .alreadyRead)
        ↔ ∃ asked ∈ (sampleStart.run sampleActions).asked, ∃ outermost ∈ asked.streamIds,
          (Signer.unwrapBody held).body.streamId? = some outermost := by
  have hsource : sampleSources 0 ≠ none := by simp [sampleSources]
  have hiff := sign_alreadyRead_iff ofSources_sampleSources streamId?_sampleBody hsource
    Signer.sampleRequest sampleActions validate_sampleConfig identityCredentials_sample
  exact ⟨hsource, fun held hheld clock => (hiff held hheld clock).1⟩

/-- The copy that was wrapped is signed, and then it has no reader. -/
theorem exhausted_stream_is_signed :
    (sampleStart.run sampleActions).shared.openingCount 0 = 1
    ∧ ∃ held ∈ (sampleStart.run sampleActions).requests, ∃ signed after,
      Signer.sign ⟨⟨0⟩, none⟩ sampleConfig (.credentials Signer.sampleCredentials) held
        (sampleStart.run sampleActions).shared = (.ok signed, after)
      ∧ (signed.request.body.openReader after).1 = .ok none := by
  have hopened : (sampleStart.run sampleActions).shared.openingCount 0 = 1 := rfl
  have h : OneShot 0 (some 3) sampleSources (sampleStart.run sampleActions) :=
    (OneShot.of_ofSources ofSources_sampleSources streamId?_sampleBody Signer.sampleRequest).run
      sampleActions
  let wrapped := (Request.withSha256Trailer { Signer.sampleRequest with body := sampleBody }
    { openings := [0] }).1
  have hwrapped : wrapped ∈ (sampleStart.run sampleActions).requests :=
    List.mem_cons_of_mem _ (List.mem_singleton.mpr rfl)
  -- The signing succeeds although the stream is exhausted; there is no reader for what it returns.
  have hok : (Signer.sign ⟨⟨0⟩, none⟩ sampleConfig (.credentials Signer.sampleCredentials) wrapped
      (sampleStart.run sampleActions).shared).1.isOk = true := by decide +kernel
  obtain ⟨signed, after, hsign⟩ := Signer.exists_signed_of_isOk hok
  have hne : (sampleStart.run sampleActions).shared.openingCount 0 ≠ 0 := by
    rw [hopened]
    exact Nat.one_ne_zero
  exact ⟨hopened, wrapped, hwrapped, signed, after, hsign,
    h.openReader_signed_eq_none hwrapped hsign hne⟩

end Session

end SigV4
