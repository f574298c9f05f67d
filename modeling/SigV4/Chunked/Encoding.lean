import SigV4.Chunked.Context

/-!
# The encoding of a whole payload

The encoding as a function of the payload alone: the payload is cut into slices of the chunk size,
every slice makes a segment, and the frame that ends the payload and the trailers follow. A stream
delivers this text whatever pieces its source hands out and whatever pieces it is asked for.
-/

namespace SigV4

namespace Chunked

/-- Consecutive slices of `size` bytes; only the last one may be shorter, and none is empty. -/
def slices (size : Nat) (payload : Bytes) : List Bytes :=
  if size = 0 ∨ payload = [] then []
  else payload.take size :: slices size (payload.drop size)
termination_by payload.length
decreasing_by
  rename_i h
  have : payload.length ≠ 0 := fun h' => h (.inr (List.length_eq_zero_iff.mp h'))
  simp only [List.length_drop]
  omega

end Chunked

namespace ChunkContext

/-- The segments for chunks of this data and for all that follows them, signed from `previous` on. -/
def segmentsFrom (c : ChunkContext) (values : List (Bytes × Bytes)) (previous : Bytes) :
    List Bytes → List Segment
  | data :: rest =>
    let segment := c.chunkSegment previous data
    segment :: c.segmentsFrom values segment.signature rest
  | [] =>
    let last := c.chunkSegment previous []
    if c.trailers.isEmpty then [last] else [last, c.trailerSegment last.signature values]

/-- The segments of a payload, with these names and values as trailers. -/
def segments (c : ChunkContext) (values : List (Bytes × Bytes)) (payload : Bytes) : List Segment :=
  c.segmentsFrom values c.seed (Chunked.slices c.chunkSize.toNat payload)

def encode (c : ChunkContext) (values : List (Bytes × Bytes)) (payload : Bytes) : Bytes :=
  (c.segments values payload).flatMap (·.text)

end ChunkContext

end SigV4
