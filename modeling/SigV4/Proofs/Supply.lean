import SigV4.Chunked.Stream
import Mathlib.Data.List.Forall2

/-!
# Sources that supply a payload

What is asked of a source is only that it hands its payload out in order, in pieces that are not
empty and no longer than asked for, and then nothing for ever. `Supplies` says so without fixing how
the source splits its pieces: it is the largest relation between a source and what is left of the
payload that one reading preserves (`Supplies.pull`).

* **`supplies_memory`**: content in memory is supplied.
* **`ChunkStream.fill_eq`**: filling a buffer takes exactly the next bytes of the payload, however
  many readings that needs.

A reader may settle trailers on the way. It never changes one that settled before
(`Shared.SettledIn`), so trailers that are resolved stay resolved (`Resolved.mono`). What it has settled
by the end of its source is said by `LeadsTo`.
-/

namespace SigV4

/-! ## Settled trailers

Readers share trailers. None of them takes back what another has settled. -/

/-- What settled is still settled to the same later on. -/
def Shared.SettledIn (shared later : Shared) : Prop :=
  ∀ id value, shared.trailer? id = some value → later.trailer? id = some value

namespace Shared.SettledIn

theorem refl (shared : Shared) : shared.SettledIn shared := fun _ _ h => h

theorem trans {a b c : Shared} (hab : a.SettledIn b) (hbc : b.SettledIn c) : a.SettledIn c :=
  fun id value h => hbc id value (hab id value h)

end Shared.SettledIn

/-- Each trailer settled to a value without line breaks; `values` lists names and values. -/
def Resolved (shared : Shared) (trailers : List Trailer) (values : List (Bytes × Bytes)) : Prop :=
  List.Forall₂ (fun trailer entry => entry.1 = trailer.name
    ∧ shared.trailer? trailer.value = some (.ok entry.2) ∧ hasLineBreak entry.2 = false)
    trailers values

namespace Resolved

variable {shared later : Shared} {trailers : List Trailer} {values : List (Bytes × Bytes)}

/-- Trailers that are resolved stay resolved, with the same values. -/
theorem mono (h : Resolved shared trailers values) (hlater : shared.SettledIn later) :
    Resolved later trailers values :=
  h.imp fun trailer entry ⟨hname, hvalue, hline⟩ =>
    ⟨hname, hlater trailer.value (.ok entry.2) hvalue, hline⟩

/-- Trailers that are resolved can all be written. -/
theorem mapM_resolve (h : Resolved shared trailers values) :
    trailers.mapM (·.resolve shared) = .ok values := by
  induction h with
  | nil => rfl
  | @cons trailer entry trailers values hentry _ ih =>
    obtain ⟨hname, hvalue, hline⟩ := hentry
    have hresolve : trailer.resolve shared = .ok entry := by
      rw [Trailer.resolve, hvalue]
      simp only [hline, Bool.false_eq_true, if_false, ← hname]
    rw [List.mapM_cons, hresolve, ih]
    rfl

end Resolved

/-! ## Supplying a payload -/

variable {ρ : Type}

/-- What a reading returned and left behind is told by its result. -/
theorem Pull.ok_inj {α : Type} {piece piece' : α} {source source' : ρ} {shared shared' : Shared}
    (h : ((.ok piece, source, shared) : Outcome α × ρ × Shared) = (.ok piece', source', shared')) :
    piece = piece' ∧ source = source' ∧ shared = shared' := by
  simpa using h

/-- One reading keeps the relation `left` between a source and the rest of its payload. -/
def PreservedByPull (pull : Pull ρ) (left : ρ → Bytes → Prop) : Prop :=
  ∀ source rest n shared, left source rest → 0 < n →
    ∃ piece rest' source' shared', pull n source shared = (.ok piece, source', shared')
      ∧ rest = piece ++ rest' ∧ piece.length ≤ n ∧ (piece = [] → rest = [])
      ∧ left source' rest' ∧ shared.SettledIn shared'

/-- The source hands out `payload` in order, in pieces of which none is empty or longer than asked
for, and then nothing for ever. -/
def Supplies (pull : Pull ρ) (source : ρ) (payload : Bytes) : Prop :=
  ∃ left, PreservedByPull pull left ∧ left source payload

/-- One reading of a source that supplies a payload. -/
theorem Supplies.pull {pull : Pull ρ} {source : ρ} {payload : Bytes}
    (h : Supplies pull source payload) {n : Nat} (hn : 0 < n) (shared : Shared) :
    ∃ piece rest source' shared', pull n source shared = (.ok piece, source', shared')
      ∧ payload = piece ++ rest ∧ piece.length ≤ n ∧ (piece = [] → payload = [])
      ∧ Supplies pull source' rest ∧ shared.SettledIn shared' := by
  obtain ⟨left, hleft, hsource⟩ := h
  obtain ⟨piece, rest, source', shared', hpull, hpayload, hlength, hend, hrest, hsettled⟩ :=
    hleft source payload n shared hsource hn
  exact ⟨piece, rest, source', shared', hpull, hpayload, hlength, hend, ⟨left, hleft, hrest⟩,
    hsettled⟩

/-- Content in memory is supplied. The relation of `Supplies` is here that what is left is the rest of the
content. -/
theorem supplies_memory (content : Bytes) :
    Supplies (ByteSource.pull : Pull MemorySource) ⟨content⟩ content := by
  refine ⟨fun source rest => source.rest = rest, ?_, rfl⟩
  rintro ⟨content⟩ rest n shared rfl hn
  refine ⟨content.take n, content.drop n, ⟨content.drop n⟩, shared, rfl, ?_, ?_, ?_, rfl, .refl _⟩
  · exact (List.take_append_drop n content).symm
  · exact List.length_take_le n content
  · intro hpiece
    rcases List.take_eq_nil_iff.mp hpiece with h | h
    · omega
    · exact h

/-- A reading of the source keeps `inv`, and a source that hands out nothing has seen to `ready`. -/
def LeadsTo (pull : Pull ρ) (inv : ρ → Shared → Prop) (ready : Shared → Prop) : Prop :=
  ∀ ⦃n source shared piece source' shared'⦄, 0 < n → inv source shared →
    pull n source shared = (.ok piece, source', shared') →
    inv source' shared' ∧ (piece = [] → ready shared')

/-- Filling takes the next `room` bytes of the payload, or what is left of it. The induction is on
`room`, since every piece of the source leaves less of it. -/
theorem ChunkStream.fill_eq {pull : Pull ρ} {source : ρ} {payload : Bytes}
    (h : Supplies pull source payload) (room : Nat) (shared : Shared) (taken : Bytes) :
    ∃ source' shared', fill pull room source shared taken
        = (.ok (taken.reverse ++ payload.take room), source', shared')
      ∧ Supplies pull source' (payload.drop room) ∧ shared.SettledIn shared' := by
  induction room using Nat.strongRecOn generalizing source payload shared taken with
  | ind room ih =>
    rw [fill]
    split
    next hroom =>
      refine ⟨source, shared, by simp [hroom], ?_, .refl shared⟩
      rwa [hroom, List.drop_zero]
    next hroom =>
      obtain ⟨piece, rest, source', shared', hpull, hpayload, hlength, hend, hrest, hsettled⟩ :=
        h.pull (Nat.pos_of_ne_zero hroom) shared
      rw [hpull]
      cases piece with
      | nil =>
        -- A source that hands out nothing is at its end.
        have hpayload' : payload = [] := hend rfl
        have hrest' : rest = [] := by simpa [hpayload'] using hpayload.symm
        refine ⟨source', shared', by simp [hpayload'], ?_, hsettled⟩
        rwa [hpayload', List.drop_nil, ← hrest']
      | cons b bytes =>
        -- The piece is the front of the payload and fits, so the rest is filled with what follows.
        have hless : room - (bytes.length + 1) < room := by omega
        obtain ⟨source'', shared'', hfill, hsupplies, hsettled'⟩ :=
          ih _ hless hrest shared' (bytes.reverse ++ b :: taken)
        have hlength' : (b :: bytes).length ≤ room := hlength
        refine ⟨source'', shared'', ?_, ?_, hsettled.trans hsettled'⟩
        · simp only [hfill, hpayload, List.take_append, List.take_of_length_le hlength']
          simp
        · rw [hpayload, List.drop_append, List.drop_of_length_le hlength', List.nil_append]
          exact hsupplies

/-- A buffer that is not filled was left at the end of the source. Filling stops early only with an empty
answer, and such an answer is what `LeadsTo` speaks of. -/
theorem ChunkStream.fill_leadsTo {pull : Pull ρ} {inv : ρ → Shared → Prop}
    {ready : Shared → Prop} (hlead : LeadsTo pull inv ready) (room : Nat) {source source' : ρ}
    {shared shared' : Shared} {taken out : Bytes} (hinv : inv source shared)
    (hfill : fill pull room source shared taken = (.ok out, source', shared')) :
    inv source' shared' ∧ (out.length < taken.length + room → ready shared') := by
  induction room using Nat.strongRecOn generalizing source shared taken with
  | ind room ih =>
    rw [fill] at hfill
    split at hfill
    next hroom =>
      obtain ⟨rfl, rfl, rfl⟩ := Pull.ok_inj hfill
      refine ⟨hinv, fun hless => ?_⟩
      rw [List.length_reverse] at hless
      omega
    next hroom =>
      split at hfill
      next => exact absurd (Prod.mk.inj hfill).1 (by simp)
      next source₁ shared₁ hpull =>
        -- The source handed out nothing, so it has seen to `ready`.
        obtain ⟨-, rfl, rfl⟩ := Pull.ok_inj hfill
        obtain ⟨hinv₁, hready⟩ := hlead (Nat.pos_of_ne_zero hroom) hinv hpull
        exact ⟨hinv₁, fun _ => hready rfl⟩
      next b bytes source₁ shared₁ hpull =>
        have hinv₁ := (hlead (Nat.pos_of_ne_zero hroom) hinv hpull).1
        obtain ⟨hinv', hready⟩ := ih _ (by omega) hinv₁ hfill
        refine ⟨hinv', fun hless => hready ?_⟩
        rw [List.length_append, List.length_reverse, List.length_cons]
        omega

end SigV4
