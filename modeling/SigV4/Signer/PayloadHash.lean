import SigV4.Config
import SigV4.Request

/-!
# The payload's place in the signature

Which hash a request is signed with follows from its trailers, its body and the configuration, in
this order, unless the configuration prescribes one.
-/

namespace SigV4.Signer

variable {σ : Type}

/-- Is the body of this request to be sent aws-chunked? Trailers need it; else it is for streams of
known length that are one-shot or large, where the configuration allows it. -/
def sendsChunks (request : Request σ) (config : Config) : Bool :=
  if !request.trailers.isEmpty then
    true
  else
    match request.body.kind, request.body.contentLength with
    | .streaming, some length =>
      config.chunksAllowed && (!request.body.replayable || config.chunksThreshold < length)
    | _, _ => false

/-- A stream that is known to be empty is signed like an empty body, and a one-shot stream is left
unread. -/
def resolveHash (request : Request σ) (config : Config) : Outcome PayloadHash :=
  match config.hashOverride with
  | some hash =>
    if !request.trailers.isEmpty && !hash.sendsTrailers then .error (.configuration .trailersUnsent)
    else .ok hash
  | none =>
    let body := request.body
    let kind : HashKind :=
      if !request.trailers.isEmpty then
        if config.unsignedPayload then .unsignedChunksWithTrailers else .signedChunksWithTrailers
      else if body.isEmpty || (body.kind == .streaming && body.contentLength == some 0) then
        .emptyBody
      else if sendsChunks request config then
        .signedChunks
      else if (body.kind == .streaming && !body.replayable) || config.unsignedPayload then
        .unsignedPayload
      else
        .fromPayload
    .ok { kind }

/-- Reads a replayable stream once to hash it. -/
def hashStream [ByteSource σ] (body : Body σ) (shared : Shared) : Outcome Bytes × Shared :=
  if !body.replayable then
    (.error (.unsignableBody .oneShotHash), shared)
  else
    match body.openReader shared with
    | (.error failure, shared) => (.error failure, shared)
    | (.ok none, shared) => (.error (.unsignableBody .notOpenable), shared)
    | (.ok (some reader), shared) =>
      match reader.digest shared with
      | (.error failure, shared) => (.error failure, shared)
      | (.ok digest, shared) => (.ok (Hex.encode digest), shared)

/-- The text in the payload's place. -/
def hashPayload [ByteSource σ] (body : Body σ) (hash : PayloadHash) (shared : Shared) :
    Outcome Bytes × Shared :=
  if hash.kind = .fromPayload then
    match body with
    | .empty => (.ok Signature.emptyHash, shared)
    | .bytes content => (.ok (sha256Hex content), shared)
    | body => hashStream body shared
  else
    (.ok hash.literal, shared)

end SigV4.Signer
