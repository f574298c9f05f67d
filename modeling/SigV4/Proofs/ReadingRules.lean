import SigV4.Body

/-!
# Rules for readings

A reading of an aws-chunked stream is a loop around a loop around readings of its source. What holds of
the state while readings succeed, and what holds where one fails, is carried through both loops once and
for all:

* **`Ends`**: what holds where a step ends, by whether it succeeded.
* **`Checksummed.Pulled`**: the four things that a reading of a checksum can come to.
* **`ChunkStream.fill_ends`**, **`ChunkStream.deliver_ends`**: the loops. A property that one round keeps is
  kept by all of them.
* **`ChunkStream.pull_ends_of_context`**, **`ChunkStream.pull_ends`**: so a stream keeps what its source
  keeps, whether or not this depends on the trailers that it declares.
-/

namespace SigV4

/-- `P` holds where the step ends if it succeeds, and `Q` of its failure and where it ends otherwise. -/
def Ends {α ρ : Type} (P : ρ → Shared → Prop) (Q : Failure → ρ → Shared → Prop) :
    Outcome α × ρ × Shared → Prop
  | (.ok _, source, shared) => P source shared
  | (.error failure, source, shared) => Q failure source shared

theorem Ends.elim {α ρ : Type} {P : ρ → Shared → Prop} {result : Outcome α × ρ × Shared}
    (h : Ends P (fun _ => P) result) : P result.2.1 result.2.2 := by
  rcases result with ⟨outcome, source, shared⟩
  cases outcome with
  | error failure => exact h
  | ok a => exact h

/-- What holds where the step succeeds may be weakened. -/
theorem Ends.imp {α ρ : Type} {P P' : ρ → Shared → Prop} {Q : Failure → ρ → Shared → Prop}
    {result : Outcome α × ρ × Shared} (h : Ends P Q result)
    (himp : ∀ source shared, P source shared → P' source shared) : Ends P' Q result := by
  rcases result with ⟨outcome, source, shared⟩
  cases outcome with
  | error failure => exact h
  | ok a => exact himp source shared h

def Outcome.failure? {α : Type} : Outcome α → Option Failure
  | .error failure => some failure
  | .ok _ => none

/-- A property of the failure, if there is one, tells both cases at once. -/
theorem ends_iff {α ρ : Type} {R : Option Failure → ρ → Shared → Prop} {outcome : Outcome α} {state : ρ}
    {shared : Shared} : Ends (R none) (fun failure => R (some failure)) (outcome, state, shared)
      ↔ R outcome.failure? state shared := by
  cases outcome with
  | error failure => exact Iff.rfl
  | ok a => exact Iff.rfl

/-- A source that keeps `P` while it can be read, and leaves `Q` where it fails. -/
def Pull.Keeps {ρ : Type} (pull : Pull ρ) (P : ρ → Shared → Prop) (Q : Failure → ρ → Shared → Prop) :
    Prop :=
  ∀ n source shared, P source shared → Ends P Q (pull n source shared)

namespace Checksummed

variable {ρ : Type} {inner : Pull ρ} {n : Nat} {c : Checksummed ρ} {shared : Shared}

/-- What a reading of a checksum can come to. -/
inductive Pulled (inner : Pull ρ) (n : Nat) (c : Checksummed ρ) (shared : Shared) :
    Outcome Bytes × Checksummed ρ × Shared → Prop where
  /-- It was finished before. -/
  | nothing (hfinished : c.finished = true) : Pulled inner n c shared (.ok [], c, shared)
  | failure {failure : Failure} {source : ρ} {shared' : Shared} (hopen : c.finished = false)
      (hread : inner n c.inner shared = (.error failure, source, shared')) :
      Pulled inner n c shared (.error failure, { c with inner := source },
        shared'.settle c.trailer (.error failure))
  | finish {source : ρ} {shared' : Shared} (hopen : c.finished = false)
      (hread : inner n c.inner shared = (.ok [], source, shared')) :
      Pulled inner n c shared (.ok [], { c with inner := source, finished := true },
        shared'.settle c.trailer (.ok (Base64.encode c.digest.finish)))
  | piece {b : UInt8} {bytes : Bytes} {source : ρ} {shared' : Shared} (hopen : c.finished = false)
      (hread : inner n c.inner shared = (.ok (b :: bytes), source, shared')) :
      Pulled inner n c shared (.ok (b :: bytes),
        { c with inner := source, digest := c.digest.update (b :: bytes) }, shared')

/-- Every reading of a checksum comes to one of the four. All that is said about such readings is said case
by case of these. -/
theorem pulled {result : Outcome Bytes × Checksummed ρ × Shared}
    (h : Checksummed.pull inner n c shared = result) : Pulled inner n c shared result := by
  subst h
  unfold Checksummed.pull
  split
  next hfinished => exact .nothing hfinished
  next hopen =>
    have hopen := Bool.eq_false_iff.mpr hopen
    rcases hread : inner n c.inner shared with ⟨outcome, source, shared'⟩
    cases outcome with
    | error failure => exact .failure hopen hread
    | ok piece =>
      cases piece with
      | nil => exact .finish hopen hread
      | cons b bytes => exact .piece hopen hread

end Checksummed

namespace ChunkStream

variable {ρ : Type} {pull : Pull ρ}

/-- **Filling a buffer** ends where its last reading ends, so it keeps what readings keep. The induction is
on `room`, as each piece leaves less of it. -/
theorem fill_ends {P : ρ → Shared → Prop} {Q : Failure → ρ → Shared → Prop} (hpull : pull.Keeps P Q)
    (room : Nat) {source : ρ} {shared : Shared} (h : P source shared) (taken : Bytes) :
    Ends P Q (fill pull room source shared taken) := by
  induction room using Nat.strongRecOn generalizing source shared taken with
  | ind room ih =>
    rw [fill]
    split
    · exact h
    · have hread := hpull room source shared h
      rcases hresult : pull room source shared with ⟨outcome, source', shared'⟩
      rw [hresult] at hread
      cases outcome with
      | error failure => exact hread
      | ok piece =>
        cases piece with
        | nil => exact hread
        | cons b bytes => exact ih _ (by omega) hread _

/-- **Delivering** refills and copies in turns, and keeps what both of them keep. Each turn copies a byte at
least, so the induction is on the number of bytes. -/
theorem deliver_ends {P : ChunkStream ρ → Shared → Prop} {Q : Failure → ChunkStream ρ → Shared → Prop}
    (hrefill : ∀ s shared, P s shared → Ends P Q (refill pull s shared))
    (hcopy : ∀ s shared n, P s shared → P { s with pending := s.pending.drop n } shared)
    (n : Nat) {s : ChunkStream ρ} {shared : Shared} (h : P s shared) (out : Bytes) :
    Ends P Q (deliver pull n s shared out) := by
  induction n using Nat.strongRecOn generalizing s shared out with
  | ind n ih =>
    rw [deliver.eq_def]
    cases n with
    | zero => exact h
    | succ n =>
      have hstep := hrefill s shared h
      dsimp only
      rcases hresult : refill pull s shared with ⟨outcome, s', shared'⟩
      rw [hresult] at hstep
      cases outcome with
      | error failure => exact hstep
      | ok done =>
        -- Copying comes between refilling and the next round, so the property has to stand it.
        have hcopied := hcopy s' shared' (n + 1) hstep
        dsimp only
        split
        next => exact hstep
        next b pending hpending =>
          rw [hpending, List.drop_succ_cons] at hcopied
          exact ih _ (by omega) hcopied _

/-- **A stream keeps what its source keeps**, provided that this allows for those of its trailers that
cannot be sent. Which trailers these are is fixed by the context, and no reading replaces it. -/
theorem pull_ends_of_context (context : ChunkContext) {P : ρ → Shared → Prop}
    {Q : Failure → ρ → Shared → Prop} (hpull : pull.Keeps P Q)
    (htrailers : ∀ source shared failure, P source shared →
      context.trailers.mapM (·.resolve shared) = .error failure → Q failure source shared) :
    (ChunkStream.pull pull).Keeps (fun s shared => s.context = context ∧ P s.source shared)
      fun failure s => Q failure s.source := by
  intro n s shared h
  refine deliver_ends ?_ (fun _ _ _ h => h) n h []
  rintro s shared ⟨hcontext, h⟩
  unfold refill
  split
  · cases s.phase with
    | chunks =>
      have hfill := fill_ends hpull s.context.chunkSize.toNat h []
      dsimp only
      rcases hresult : fill pull s.context.chunkSize.toNat s.source shared []
        with ⟨outcome, source', shared'⟩
      rw [hresult] at hfill
      cases outcome with
      | error failure => exact hfill
      | ok data => exact ⟨hcontext, hfill⟩
    -- A trailer that cannot be sent is one of the declared ones.
    | trailers =>
      dsimp only
      cases hresolve : s.context.trailers.mapM (·.resolve shared) with
      | error failure => exact htrailers _ _ _ h (hcontext ▸ hresolve)
      | ok values => exact ⟨hcontext, h⟩
    | finished => exact ⟨hcontext, h⟩
    | cancelled => exact ⟨hcontext, h⟩
  · exact ⟨hcontext, h⟩

/-- The same where nothing depends on which trailers are declared: any list of them that cannot be sent
has to be allowed for. -/
theorem pull_ends {P : ρ → Shared → Prop} {Q : Failure → ρ → Shared → Prop} (hpull : pull.Keeps P Q)
    (htrailers : ∀ (trailers : List Trailer) source shared failure, P source shared →
      trailers.mapM (·.resolve shared) = .error failure → Q failure source shared) :
    (ChunkStream.pull pull).Keeps (fun s => P s.source) fun failure s => Q failure s.source := by
  intro n s shared h
  have hends := pull_ends_of_context s.context hpull (htrailers s.context.trailers) n s shared ⟨rfl, h⟩
  exact hends.imp fun _ _ h => h.2

end ChunkStream

end SigV4
