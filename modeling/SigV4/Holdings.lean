import SigV4.Request

/-!
# What a client still holds

A checksum trailer is a promise of the body that declares it, and the first of its readers that
comes to the end, or fails on the way, settles it. A client that lets go of every such body and
reader before that breaks the promise: whoever asks for the trailer learns so instead of waiting
for ever.
-/

namespace SigV4

/-- The requests and readers that a client has not let go of. -/
structure Holdings (σ : Type) where
  requests : List (Request σ)
  readers : List (Reader σ)

namespace Holdings

variable {σ : Type}

/-- The trailers that something held can still settle. -/
def promises (held : Holdings σ) : List TrailerId :=
  held.requests.flatMap (·.body.promises) ++ held.readers.flatMap Reader.promises

/-- What is shared, once the client has let go of all else. -/
def retain (held : Holdings σ) (shared : Shared) : Shared := shared.giveUp held.promises

end Holdings

end SigV4
