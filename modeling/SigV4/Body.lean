import SigV4.Checksum
import SigV4.Chunked.Stream

/-!
# Bodies and their readers

A body is empty, held in memory, or a stream that the caller's source factory opens. Two kinds of
stream wrap another body: one computes a checksum trailer, one encodes its payload aws-chunked.
Every stream has an identity of its own in `Shared`, by which a one-shot stream is opened only once,
whichever copy of the body is asked.
-/

namespace SigV4

/-- How a reader is stacked upon its source. -/
inductive Layers where
  | memory
  | caller
  | checksummed (inner : Layers)
  | chunked (inner : Layers)
deriving DecidableEq, Repr

namespace Layers

def State (σ : Type) : Layers → Type
  | memory => MemorySource
  | caller => σ
  | checksummed inner => Checksummed (inner.State σ)
  | chunked inner => ChunkStream (inner.State σ)

variable {σ : Type} [ByteSource σ]

def pull : (layers : Layers) → Pull (layers.State σ)
  | memory => (ByteSource.pull : Pull MemorySource)
  | caller => (ByteSource.pull : Pull σ)
  | checksummed inner => Checksummed.pull inner.pull
  | chunked inner => ChunkStream.pull inner.pull

/-- The trailers that reading to the end settles. -/
def promises {σ : Type} : (layers : Layers) → layers.State σ → List TrailerId
  | memory, _ | caller, _ => []
  | checksummed inner, state => Checksummed.trailer state :: inner.promises (Checksummed.inner state)
  | chunked inner, state => inner.promises (ChunkStream.source state)

end Layers

/-- A reader on a body whose streams read from `σ`. -/
structure Reader (σ : Type) where
  layers : Layers
  state : layers.State σ

namespace Reader

variable {σ : Type}

def read [ByteSource σ] (n : Nat) (reader : Reader σ) (shared : Shared) :
    Outcome Bytes × Reader σ × Shared :=
  let (outcome, state, shared) := reader.layers.pull n reader.state shared
  (outcome, ⟨reader.layers, state⟩, shared)

def promises (reader : Reader σ) : List TrailerId := reader.layers.promises reader.state

/-- Phase and last signature of a reader that encodes its payload. -/
def progress? : Reader σ → Option (Phase × Bytes)
  | ⟨.chunked _, stream⟩ => some (ChunkStream.phase stream, ChunkStream.previous stream)
  | _ => none

/-- Only an encoding reader can be cancelled. -/
def cancel? : Reader σ → Option (Reader σ)
  | ⟨.chunked inner, stream⟩ => some ⟨.chunked inner, ChunkStream.cancel stream⟩
  | _ => none

/-- Reads to the end in pieces of at most 64 KiB. -/
def digest [ByteSource σ] (reader : Reader σ) (shared : Shared) : Outcome Bytes × Shared :=
  go Sha256.maxLength reader shared {}
where
  /-- Every piece has a byte, so `budget` pieces are more than a digest can cover. -/
  go : Nat → Reader σ → Shared → Sha256 → Outcome Bytes × Shared
    | 0, _, shared, _ => (.error .payloadTooLong, shared)
    | budget + 1, reader, shared, hash =>
      match reader.read 65536 shared with
      | (.error failure, _, shared) => (.error failure, shared)
      | (.ok [], _, shared) => (.ok hash.finish, shared)
      | (.ok bytes, reader, shared) => go budget reader shared (hash.update bytes)

end Reader

/-- The payload of a request. `sources k` is what the caller's factory returns on being asked when
the stream was opened `k` times before, `none` where it has nothing to read from. -/
inductive Body (σ : Type) where
  | empty
  | bytes (content : Bytes)
  | stream (id : StreamId) (length : Option UInt64) (replayable : Bool) (sources : Nat → Option σ)
  | checksummed (id : StreamId) (inner : Body σ) (trailer : TrailerId)
  | chunked (id : StreamId) (payload : Body σ) (context : ChunkContext)

/-- How a body is held. -/
inductive BodyKind where
  | empty
  | bytes
  | streaming
deriving DecidableEq, Repr

namespace Body

variable {σ : Type}

instance : Inhabited (Body σ) := ⟨.empty⟩

/-- A stream from a source factory. -/
def ofSources (sources : Option (Nat → Option σ)) (length : Option UInt64) (replayable : Bool)
    (shared : Shared) : Outcome (Body σ × Shared) :=
  match sources with
  | none => .error (.invalidInput .sourceMissing)
  | some sources =>
    let (id, shared) := shared.newStream
    .ok (.stream id length replayable sources, shared)

def kind : Body σ → BodyKind
  | empty => .empty
  | bytes _ => .bytes
  | stream .. | checksummed .. | chunked .. => .streaming

/-- Is there no payload at all? A stream may turn out to have none and does not count. -/
def isEmpty : Body σ → Bool
  | empty => true
  | bytes content => content.isEmpty
  | stream .. | checksummed .. | chunked .. => false

/-- The bytes that are held in memory. -/
def content : Body σ → Bytes
  | bytes content => content
  | _ => []

/-- The length that is known before the body is read. -/
def contentLength : Body σ → Option UInt64
  | empty => some 0
  | bytes content => some content.length.toUInt64
  | stream _ length _ _ => length
  | checksummed _ inner _ => inner.contentLength
  | chunked _ payload context =>
    if context.trailers.isEmpty then
      payload.contentLength.map (Chunked.encodedLength · context.chunkSize context.signed)
    else
      none

/-- Can the body be read more than once? -/
def replayable : Body σ → Bool
  | empty | bytes _ => true
  | stream _ _ replayable _ => replayable
  | checksummed _ inner _ => inner.replayable
  | chunked _ payload _ => payload.replayable

/-- The body that an aws-chunked body encodes. -/
def payload? : Body σ → Option (Body σ)
  | chunked _ payload _ => some payload
  | _ => none

def streamId? : Body σ → Option StreamId
  | empty | bytes _ => none
  | stream id .. | checksummed id .. | chunked id .. => some id

/-- The trailers that readers of this body settle. -/
def promises : Body σ → List TrailerId
  | empty | bytes _ | stream .. => []
  | checksummed _ inner trailer => trailer :: inner.promises
  | chunked _ payload _ => payload.promises

/-- Was a one-shot stream opened, by this body itself? -/
def consumed (body : Body σ) (shared : Shared) : Bool :=
  !body.replayable && body.streamId?.any shared.wasOpened

/-- Opens a reader. There is none on a one-shot stream that was opened before, and none where the
caller's factory has no source. -/
def openReader (body : Body σ) (shared : Shared) : Outcome (Option (Reader σ)) × Shared :=
  if body.consumed shared then
    (.ok none, shared)
  else
    match body with
    | empty => (.ok (some ⟨.memory, MemorySource.mk []⟩), shared)
    | bytes content => (.ok (some ⟨.memory, MemorySource.mk content⟩), shared)
    | stream id _ _ sources =>
      (.ok ((sources (shared.openingCount id)).map fun source => ⟨.caller, source⟩),
        shared.countOpening id)
    | checksummed id inner trailer =>
      match inner.openReader (shared.countOpening id) with
      | (.ok (some reader), shared) =>
        (.ok (some ⟨.checksummed reader.layers, { inner := reader.state, trailer }⟩), shared)
      | other => other
    | chunked id payload context =>
      match payload.openReader (shared.countOpening id) with
      | (.ok (some reader), shared) =>
        ((ChunkStream.start (some reader.state) context).map fun stream =>
          some ⟨.chunked reader.layers, stream⟩, shared)
      | other => other

end Body

end SigV4
