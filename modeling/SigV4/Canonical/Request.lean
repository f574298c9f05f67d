import SigV4.Canonical.Headers
import SigV4.Canonical.Path
import SigV4.Canonical.Query
import SigV4.Config
import SigV4.Request

/-!
# Canonical requests

The one text of a request that client and server both derive and that is signed. It has a line for the method,
the path and the query, a block of header lines, the names of these headers, and the hash of the payload.
`CanonicalRequest.build` derives the parts and fails where a request has no such form, and
`CanonicalRequest.text` only joins them, so what is said of the text is said of the parts.
-/

namespace SigV4

structure CanonicalRequest where
  method : Bytes
  path : Bytes
  query : Bytes
  headers : Bytes
  signedHeaders : Bytes
  payloadHash : Bytes
deriving DecidableEq, Repr

namespace CanonicalRequest

open Canonical

def text (c : CanonicalRequest) : Bytes :=
  Signature.lines [c.method, c.path, c.query, c.headers, c.signedHeaders, c.payloadHash]

/-- A request must say which host it is for, and the headers that are signed must stay on their
lines. -/
def build {σ : Type} (request : Request σ) (config : Config) (payloadHash : Bytes) :
    Outcome CanonicalRequest := do
  let headers := Canonical.signedHeaders request.headers config.headerFilter
  if !headers.any (·.1 == ascii "host") then
    throw (.canonicalization .hostMissing)
  let lines ← headers.mapM fun (name, values) => canonicalHeaderLine name values
  return {
    method := request.method.text
    path := canonicalPath request.path config.normalizePath config.doubleEncode
    query := canonicalQuery request.queries config.presigned
    headers := lines.flatten
    signedHeaders := Bytes.join (ascii ";") (headers.map (·.1))
    payloadHash }

end CanonicalRequest

end SigV4
