import SigV4.Shared

/-!
# Sources of bytes

A source is read piecewise: asked for at most `n` bytes it hands out some, an empty answer being
its end, or it fails, and it goes on from the state that it was left in either way.
-/

namespace SigV4

/-- A source that the caller supplies. -/
class ByteSource (σ : Type) where
  read : Nat → σ → Outcome Bytes × σ

/-- A reader that may also settle trailers, or wait for them, while it is read. -/
abbrev Pull (ρ : Type) := Nat → ρ → Shared → Outcome Bytes × ρ × Shared

def ByteSource.pull {σ : Type} [ByteSource σ] : Pull σ := fun n source shared =>
  let (outcome, source) := ByteSource.read n source
  (outcome, source, shared)

/-- Content in memory, of which `rest` was not read yet. -/
structure MemorySource where
  rest : Bytes
deriving DecidableEq, Repr

instance : ByteSource MemorySource where
  read n source := (.ok (source.rest.take n), ⟨source.rest.drop n⟩)

end SigV4
