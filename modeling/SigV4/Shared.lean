import SigV4.Failure

/-!
# What copies of a request share

Bodies and requests are values, yet two copies of a one-shot body are the same stream, and a
trailer that a reader computes is seen by all who hold it. That part of the state is kept here:
how often each stream was opened, and what each trailer settled to. A stream and a trailer are
known by their positions.

A trailer that readers compute is given up when nothing is left that could compute it
(`Shared.giveUp`), so that nobody waits for it in vain. What settled stays (`trailer?_giveUp`).
-/

namespace SigV4

abbrev StreamId := Nat

abbrev TrailerId := Nat

/-- The value of a trailer, or who is to settle it. -/
inductive TrailerState where
  | settled (value : Outcome Bytes)
  | promisedByCaller
  | computedByReaders
deriving Repr

def TrailerState.value? : TrailerState → Option (Outcome Bytes)
  | settled value => some value
  | promisedByCaller | computedByReaders => none

structure Shared where
  openings : List Nat := []
  trailers : List TrailerState := []
deriving Repr

namespace Shared

/-- A stream that was never opened. -/
def newStream (shared : Shared) : StreamId × Shared :=
  (shared.openings.length, { shared with openings := shared.openings ++ [0] })

/-- A trailer that is settled already, or is to be settled later. -/
def newTrailer (shared : Shared) (state : TrailerState) : TrailerId × Shared :=
  (shared.trailers.length, { shared with trailers := shared.trailers ++ [state] })

/-- How often the stream was opened so far. -/
def openingCount (shared : Shared) (id : StreamId) : Nat := shared.openings[id]?.getD 0

def wasOpened (shared : Shared) (id : StreamId) : Bool := shared.openingCount id != 0

def countOpening (shared : Shared) (id : StreamId) : Shared :=
  { shared with openings := shared.openings.modify id (· + 1) }

/-- What the trailer settled to. -/
def trailer? (shared : Shared) (id : TrailerId) : Option (Outcome Bytes) :=
  shared.trailers[id]?.bind (·.value?)

/-- The first value that a trailer settles to stays. -/
def settle (shared : Shared) (id : TrailerId) (value : Outcome Bytes) : Shared :=
  if (shared.trailer? id).isSome then shared
  else { shared with trailers := shared.trailers.set id (.settled value) }

/-- Settles a trailer on behalf of the one who promised it, who may do so only once. -/
def fulfil (shared : Shared) (id : TrailerId) (value : Outcome Bytes) : Outcome Shared :=
  if (shared.trailer? id).isSome then .error .promiseBroken else .ok (shared.settle id value)

/-- Breaks the promise of every trailer that readers were to compute, except those in `kept`. -/
def giveUp (shared : Shared) (kept : List TrailerId) : Shared :=
  { shared with
    trailers := shared.trailers.mapIdx fun id state =>
      match state with
      | .computedByReaders =>
        if kept.contains id then .computedByReaders else .settled (.error .promiseBroken)
      | .promisedByCaller => .promisedByCaller
      | .settled value => .settled value }

theorem trailer?_giveUp {shared : Shared} {kept : List TrailerId} {id : TrailerId}
    {value : Outcome Bytes} (h : shared.trailer? id = some value) :
    (shared.giveUp kept).trailer? id = some value := by
  unfold trailer? giveUp at *
  cases hid : shared.trailers[id]? with
  | none => simp [hid] at h
  | some state => cases state <;> simp_all [TrailerState.value?]

/-- Giving up the others changes nothing about a trailer that is kept. -/
theorem trailer?_giveUp_of_mem {shared : Shared} {kept : List TrailerId} {id : TrailerId}
    (h : id ∈ kept) : (shared.giveUp kept).trailer? id = shared.trailer? id := by
  unfold trailer? giveUp
  cases hid : shared.trailers[id]? with
  | none => simp [hid]
  | some state => cases state <;> simp [hid, h, TrailerState.value?]

@[simp] theorem length_giveUp (shared : Shared) (kept : List TrailerId) :
    (shared.giveUp kept).trailers.length = shared.trailers.length := List.length_mapIdx

end Shared

end SigV4
