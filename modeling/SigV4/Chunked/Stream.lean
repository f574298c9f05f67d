import SigV4.Chunked.Context
import SigV4.Source

/-!
# The aws-chunked stream

A `ChunkStream` reads a payload and delivers its encoding in pieces of any size. It produces the
encoding segment by segment: a frame for every chunk, the frame without data that ends the payload,
and the trailers. A segment is produced when all before it was delivered, and each is signed from
the signature of the one before.
-/

namespace SigV4

/-- What a stream produces next, if anything. -/
inductive Phase where
  | chunks
  | trailers
  | finished
  | cancelled
deriving DecidableEq, Repr

/-- `pending` was produced and is not delivered yet; `previous` is the signature that the next
segment is signed from. -/
structure ChunkStream (ρ : Type) where
  source : ρ
  context : ChunkContext
  previous : Bytes
  pending : Bytes := []
  phase : Phase := .chunks

namespace ChunkStream

variable {ρ : Type}

def start (source : Option ρ) (context : ChunkContext) : Outcome (ChunkStream ρ) :=
  match source with
  | none => .error (.unsignableBody .payloadMissing)
  | some source =>
    if context.chunkSize = 0 then .error (.configuration .chunkSizeZero)
    else .ok { source, context, previous := context.seed }

/-- Fills `room` bytes from the source, fewer only at its end; the bytes taken so far stand
reversed in `taken`. -/
def fill (pull : Pull ρ) (room : Nat) (source : ρ) (shared : Shared) (taken : Bytes) :
    Outcome Bytes × ρ × Shared :=
  if room = 0 then
    (.ok taken.reverse, source, shared)
  else
    match pull room source shared with
    | (.error failure, source, shared) => (.error failure, source, shared)
    | (.ok [], source, shared) => (.ok taken.reverse, source, shared)
    | (.ok (b :: bytes), source, shared) =>
      fill pull (room - (bytes.length + 1)) source shared (bytes.reverse ++ b :: taken)
termination_by room
decreasing_by omega

/-- The stream with a segment to deliver. -/
def produce (s : ChunkStream ρ) (segment : Segment) (next : Phase) : ChunkStream ρ :=
  { s with pending := segment.text, previous := segment.signature, phase := next }

/-- What follows the chunk `data`; the chunk without data is the last one. -/
def phaseAfter (context : ChunkContext) (data : Bytes) : Phase :=
  if !data.isEmpty then .chunks else if context.trailers.isEmpty then .finished else .trailers

/-- Produces the next segment once everything before it was delivered. Where that fails nothing is
produced, though the source may have moved. -/
def refill (pull : Pull ρ) (s : ChunkStream ρ) (shared : Shared) :
    Outcome Unit × ChunkStream ρ × Shared :=
  if s.pending.isEmpty then
    match s.phase with
    | .chunks =>
      match fill pull s.context.chunkSize.toNat s.source shared [] with
      | (.error failure, source, shared) => (.error failure, { s with source }, shared)
      | (.ok data, source, shared) =>
        let segment := s.context.chunkSegment s.previous data
        (.ok (), { s with source }.produce segment (phaseAfter s.context data), shared)
    | .trailers =>
      match s.context.trailers.mapM (·.resolve shared) with
      | .error failure => (.error failure, s, shared)
      | .ok values =>
        (.ok (), s.produce (s.context.trailerSegment s.previous values) .finished, shared)
    | .finished | .cancelled => (.ok (), s, shared)
  else
    (.ok (), s, shared)

/-- Delivers `n` bytes, fewer only at the end of the stream; those delivered so far stand reversed
in `out` and are lost if a segment cannot be produced. -/
def deliver (pull : Pull ρ) (n : Nat) (s : ChunkStream ρ) (shared : Shared) (out : Bytes) :
    Outcome Bytes × ChunkStream ρ × Shared :=
  match n with
  | 0 => (.ok out.reverse, s, shared)
  | n + 1 =>
    match refill pull s shared with
    | (.error failure, s, shared) => (.error failure, s, shared)
    | (.ok (), s, shared) =>
      match s.pending with
      | [] => (.ok out.reverse, s, shared)
      | b :: pending =>
        deliver pull (n - (pending.take n).length) { s with pending := pending.drop n } shared
          ((pending.take n).reverse ++ b :: out)
termination_by n
decreasing_by omega

def pull (inner : Pull ρ) : Pull (ChunkStream ρ) := fun n s shared => deliver inner n s shared []

/-- A cancelled stream delivers nothing more, not even what was produced. -/
def cancel (s : ChunkStream ρ) : ChunkStream ρ := { s with pending := [], phase := .cancelled }

end ChunkStream

end SigV4
