import SigV4.Signature
import SigV4.Timestamp

/-!
# Signing configurations

What a caller settles in advance: where a request goes, what stands for its payload, and in which form it is
sent.

* **`HashKind`**, **`PayloadHash`**: what stands in the payload's place. Three of the kinds are texts that
  announce an aws-chunked body (`PayloadHash.streaming`), and two of these say that its chunks are signed.
* **`Config`**: the options with their defaults, which suit most services. Two of them are for stores of
  objects, whose keys are taken as they are.
* **`Config.validate`**: what has to hold before a provider is asked or a body is touched.
-/

namespace SigV4

/-- What stands for the payload in a canonical request. -/
inductive HashKind where
  | emptyBody
  | unsignedPayload
  | fromPayload
  | signedChunks
  | signedChunksWithTrailers
  | unsignedChunksWithTrailers
  | precalculated
deriving DecidableEq, Repr

/-- A kind, and the hash of a precalculated one. -/
structure PayloadHash where
  kind : HashKind := .fromPayload
  hash : Bytes := []
deriving DecidableEq, Repr

namespace PayloadHash

/-- Is the body sent aws-chunked? -/
def streaming (hash : PayloadHash) : Bool :=
  match hash.kind with
  | .signedChunks | .signedChunksWithTrailers | .unsignedChunksWithTrailers => true
  | _ => false

def signsChunks (hash : PayloadHash) : Bool :=
  match hash.kind with
  | .signedChunks | .signedChunksWithTrailers => true
  | _ => false

def sendsTrailers (hash : PayloadHash) : Bool :=
  match hash.kind with
  | .signedChunksWithTrailers | .unsignedChunksWithTrailers => true
  | _ => false

/-- The text in the payload's place, as far as it is known without the payload. -/
def literal (hash : PayloadHash) : Bytes :=
  match hash.kind with
  | .emptyBody => Signature.emptyHash
  | .unsignedPayload => ascii "UNSIGNED-PAYLOAD"
  | .fromPayload => []
  | .signedChunks => ascii "STREAMING-AWS4-HMAC-SHA256-PAYLOAD"
  | .signedChunksWithTrailers => ascii "STREAMING-AWS4-HMAC-SHA256-PAYLOAD-TRAILER"
  | .unsignedChunksWithTrailers => ascii "STREAMING-UNSIGNED-PAYLOAD-TRAILER"
  | .precalculated => hash.hash

end PayloadHash

structure Config where
  region : Bytes := []
  service : Bytes := []
  /-- Without a date of its own a request is dated by the clock. -/
  signingDate : Option Instant := none
  /-- The signature goes into the query instead of a header. -/
  presigned : Bool := false
  hashOverride : Option PayloadHash := none
  /-- Encodes the path, which is encoded on the wire, once more; not for S3. -/
  doubleEncode : Bool := true
  /-- Resolves dot segments and repeated slashes; not for S3. -/
  normalizePath : Bool := true
  omitToken : Bool := false
  unsignedPayload : Bool := false
  /-- Sends the payload hash in a header. -/
  hashHeader : Bool := false
  /-- Seconds for which a presigned request is valid. -/
  expiresAfter : Option Int := none
  /-- Chooses the headers to sign, by lower-case name, among those that are free to choose. -/
  headerFilter : Option (Bytes → Bool) := none
  /-- Allows large or one-shot streams to be sent aws-chunked. -/
  chunksAllowed : Bool := false
  chunkSize : UInt64 := 65536
  /-- Replayable streams above this length are large. -/
  chunksThreshold : UInt64 := 1048576

namespace Config

/-- Seven days. -/
def maxExpiry : Int := 604800

/-- The preconditions of signing, in the order in which they are reported. -/
def validate (config : Config) : Outcome Unit := do
  if config.region.isEmpty then
    throw (.configuration .regionMissing)
  if config.service.isEmpty then
    throw (.configuration .serviceMissing)
  if config.hashOverride.any fun hash => hash.kind = .precalculated && hash.hash.isEmpty then
    throw (.configuration .hashMissing)
  if config.chunkSize = 0 then
    throw (.configuration .chunkSizeZero)
  if config.presigned then
    match config.expiresAfter with
    | none => throw (.configuration .expiryMissing)
    | some seconds =>
      if seconds < 1 || maxExpiry < seconds then
        throw (.configuration .expiryOutOfRange)

end Config

end SigV4
