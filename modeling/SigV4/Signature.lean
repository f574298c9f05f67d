import SigV4.Hmac

/-!
# Keys, scopes and strings to sign

The signing key is bound to a day, a region and a service by a chain of HMACs. Three texts are
signed: that of a request, that of a chunk, which names the signature before it, and that of the
trailing headers.
-/

namespace SigV4

structure SigningKey where
  bytes : Bytes
deriving DecidableEq, Repr

namespace Signature

def algorithm : Bytes := ascii "AWS4-HMAC-SHA256"

def chunkAlgorithm : Bytes := ascii "AWS4-HMAC-SHA256-PAYLOAD"

def trailerAlgorithm : Bytes := ascii "AWS4-HMAC-SHA256-TRAILER"

def terminator : Bytes := ascii "aws4_request"

/-- The SHA-256 of no bytes. -/
def emptyHash : Bytes := ascii "e3b0c44298fc1c149afbf4c8996fb92427ae41e4649b934ca495991b7852b855"

def deriveKey (secret date8 region service : Bytes) : SigningKey :=
  ⟨[date8, region, service, terminator].foldl Hmac.sign (ascii "AWS4" ++ secret)⟩

/-- A signature is written in lower-case hexadecimal. -/
def sign (key : SigningKey) (text : Bytes) : Bytes := Hex.encode (Hmac.sign key.bytes text)

def scope (date8 region service : Bytes) : Bytes :=
  Bytes.join (ascii "/") [date8, region, service, terminator]

def lines (parts : List Bytes) : Bytes := Bytes.join (ascii "\n") parts

def stringToSign (amzDate scope canonicalRequest : Bytes) : Bytes :=
  lines [algorithm, amzDate, scope, sha256Hex canonicalRequest]

/-- The empty hash stands where a chunk could have headers of its own. -/
def chunkStringToSign (amzDate scope previous chunkHash : Bytes) : Bytes :=
  lines [chunkAlgorithm, amzDate, scope, previous, emptyHash, chunkHash]

def trailerStringToSign (amzDate scope previous canonicalTrailers : Bytes) : Bytes :=
  lines [trailerAlgorithm, amzDate, scope, previous, sha256Hex canonicalTrailers]

end Signature

end SigV4
