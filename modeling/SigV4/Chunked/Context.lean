import SigV4.Chunked.Frame
import SigV4.Shared
import SigV4.Signature

/-!
# What an aws-chunked encoding depends on

Besides the payload these are the key and the texts that enter every signature, the size of the
chunks and the trailers.
-/

namespace SigV4

/-- A header that is sent behind the payload. -/
structure Trailer where
  name : Bytes
  value : TrailerId
deriving DecidableEq, Repr

/-- The name and the value of a trailer, which must have settled to text that stays on its line. -/
def Trailer.resolve (shared : Shared) (trailer : Trailer) : Outcome (Bytes × Bytes) :=
  match shared.trailer? trailer.value with
  | none => .error .notSettled
  | some (.error failure) => .error failure
  | some (.ok value) =>
    if hasLineBreak value then .error (.canonicalization (.trailerLineBreak trailer.name))
    else .ok (trailer.name, value)

/-- `seed` is the signature that the first chunk is signed from, `signed` says whether chunks and
trailers are signed at all. -/
structure ChunkContext where
  key : SigningKey
  amzDate : Bytes
  scope : Bytes
  seed : Bytes
  signed : Bool
  chunkSize : UInt64
  trailers : List Trailer
deriving DecidableEq, Repr

namespace ChunkContext

/-- Signs a chunk from the signature before it. -/
def signChunk (c : ChunkContext) (previous data : Bytes) : Option Bytes :=
  if c.signed then
    some <| Signature.sign c.key <|
      Signature.chunkStringToSign c.amzDate c.scope previous (sha256Hex data)
  else
    none

/-- Signs the canonical text of the trailers from the signature before it. -/
def signTrailers (c : ChunkContext) (previous canonical : Bytes) : Option Bytes :=
  if c.signed then
    some <| Signature.sign c.key <|
      Signature.trailerStringToSign c.amzDate c.scope previous canonical
  else
    none

end ChunkContext

/-- A stretch of an encoding that is produced at once, and the signature that the next one is
signed from. -/
structure Segment where
  text : Bytes
  signature : Bytes
deriving DecidableEq, Repr

namespace ChunkContext

/-- The frame of a chunk; without trailers the frame that ends the payload also ends the stream. -/
def chunkSegment (c : ChunkContext) (previous data : Bytes) : Segment :=
  let signature := c.signChunk previous data
  let closing := if data.isEmpty && c.trailers.isEmpty then crlf else []
  ⟨Chunked.frame data signature ++ closing, signature.getD previous⟩

/-- The trailers and the end of the stream. -/
def trailerSegment (c : ChunkContext) (previous : Bytes) (values : List (Bytes × Bytes)) :
    Segment :=
  let canonical := Chunked.canonicalTrailers values
  let signature := c.signTrailers previous canonical
  ⟨Chunked.trailerBlock canonical signature ++ crlf, signature.getD previous⟩

end ChunkContext

end SigV4
