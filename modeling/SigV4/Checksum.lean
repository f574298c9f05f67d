import SigV4.Base64
import SigV4.Sha256
import SigV4.Source

/-!
# A checksum computed while reading

A checksummed reader hands on what its inner reader delivers and settles a trailer at the end: to
the Base64 form of the payload's SHA-256, or to the first failure on the way there.
-/

namespace SigV4

structure Checksummed (ρ : Type) where
  inner : ρ
  trailer : TrailerId
  digest : Sha256 := {}
  finished : Bool := false

namespace Checksummed

variable {ρ : Type}

def pull (inner : Pull ρ) : Pull (Checksummed ρ) := fun n c shared =>
  if c.finished then
    (.ok [], c, shared)
  else
    match inner n c.inner shared with
    | (.error failure, source, shared) =>
      (.error failure, { c with inner := source }, shared.settle c.trailer (.error failure))
    | (.ok [], source, shared) =>
      (.ok [], { c with inner := source, finished := true },
        shared.settle c.trailer (.ok (Base64.encode c.digest.finish)))
    | (.ok (b :: bytes), source, shared) =>
      (.ok (b :: bytes), { c with inner := source, digest := c.digest.update (b :: bytes) }, shared)

end Checksummed

end SigV4
