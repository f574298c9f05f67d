import SigV4.Config
import SigV4.Request

/-!
# The headers of an aws-chunked request

Sending a body aws-chunked is announced as a content coding, with the length of the encoding if it
is known and else with chunked transfer, with the length of the payload, and with the names of the
trailers. Signing such a request again starts from the headers of its payload.
-/

namespace SigV4.Signer

variable {σ : Type}

def codingName : Bytes := ascii "aws-chunked"

def contentEncoding : Bytes := ascii "Content-Encoding"

def contentLength : Bytes := ascii "Content-Length"

def transferEncoding : Bytes := ascii "Transfer-Encoding"

def decodedLength : Bytes := ascii "X-Amz-Decoded-Content-Length"

def trailerNames : Bytes := ascii "x-amz-trailer"

def contentHash : Bytes := ascii "x-amz-content-sha256"

/-- Takes the coding off that signing put in front of the others. -/
def removeCoding (request : Request σ) : Request σ :=
  match request.headers.get? contentEncoding with
  | none => request
  | some codings =>
    if codings = codingName then
      request.removeHeader contentEncoding
    else if (codingName ++ ascii ",").isPrefixOf codings then
      request.setHeader contentEncoding (codings.drop (codingName.length + 1))
    else
      request

/-- The headers of the payload that `request` carries. -/
def removeChunkHeaders (request : Request σ) : Request σ :=
  let request := (removeCoding request)
    |>.removeHeader transferEncoding
    |>.removeHeader decodedLength
    |>.removeHeader trailerNames
    |>.removeHeader contentHash
  match request.body.contentLength with
  | some length => request.setHeader contentLength (Bytes.decimal length.toNat)
  | none => request.removeHeader contentLength

/-- Puts the coding in front of the others unless it is mentioned already. -/
def addCoding (request : Request σ) : Request σ :=
  match request.headers.get? contentEncoding with
  | none | some [] => request.setHeader contentEncoding codingName
  | some codings =>
    if (Bytes.cut? codingName codings).isSome then request
    else request.setHeader contentEncoding (codingName ++ ascii "," ++ codings)

/-- The length of the encoding is announced if it is known, which trailers prevent. -/
def addLength (request : Request σ) (signed : Bool) (chunkSize : UInt64) : Outcome (Request σ) :=
  match request.body.contentLength, request.trailers with
  | some length, [] => do
    let encoded ← Chunked.encodedLength? length chunkSize signed
    return request.removeHeader transferEncoding
      |>.setHeader contentLength (Bytes.decimal encoded.toNat)
  | _, _ =>
    return request.removeHeader contentLength |>.setHeader transferEncoding (ascii "chunked")

def addDecodedLength (request : Request σ) : Request σ :=
  match request.body.contentLength with
  | some length => request.setHeader decodedLength (Bytes.decimal length.toNat)
  | none => request

def addTrailerNames (request : Request σ) : Request σ :=
  if request.trailers.isEmpty then request
  else
    request.setHeader trailerNames <|
      Bytes.join (ascii ",") (request.trailers.map fun trailer => toLower trailer.name)

def addChunkHeaders (request : Request σ) (signed : Bool) (chunkSize : UInt64) :
    Outcome (Request σ) := do
  let request ← addLength (addCoding request) signed chunkSize
  return addTrailerNames (addDecodedLength request)

end SigV4.Signer
