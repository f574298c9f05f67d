import SigV4.Body
import SigV4.Fields
import SigV4.Percent

/-!
# Requests

A request holds its path and query as they are meant, not encoded; `target` and `head` write them
as they go over the wire.
-/

namespace SigV4

inductive Method where
  | get
  | put
  | post
  | delete
  | head
  | patch
deriving DecidableEq, Repr

def Method.text : Method → Bytes
  | get => ascii "GET"
  | put => ascii "PUT"
  | post => ascii "POST"
  | delete => ascii "DELETE"
  | head => ascii "HEAD"
  | patch => ascii "PATCH"

inductive Version where
  | http10
  | http11
deriving DecidableEq, Repr

def Version.text : Version → Bytes
  | http10 => ascii "HTTP/1.0"
  | http11 => ascii "HTTP/1.1"

structure Request (σ : Type) where
  method : Method := .get
  version : Version := .http11
  path : Bytes := []
  queries : Queries := ∅
  headers : Headers := ∅
  body : Body σ := .empty
  trailers : List Trailer := []

namespace Request

variable {σ : Type}

instance : Inhabited (Request σ) := ⟨{}⟩

def encodeQuery (query : Bytes × Bytes) : Bytes :=
  Percent.encode query.1 ++ ascii "=" ++ Percent.encode query.2

/-- Path and query as sent. -/
def target (request : Request σ) : Bytes :=
  (if request.path.isEmpty then ascii "/" else Percent.encodePath request.path)
    ++ if request.queries.isEmpty then []
       else ascii "?" ++ Bytes.join (ascii "&") (request.queries.entries.map encodeQuery)

def headerLine (header : Bytes × Bytes) : Bytes := header.1 ++ ascii ": " ++ header.2 ++ crlf

/-- The request line, the headers and the empty line. -/
def head (request : Request σ) : Bytes :=
  request.method.text ++ ascii " " ++ request.target ++ ascii " " ++ request.version.text ++ crlf
    ++ request.headers.entries.flatMap headerLine ++ crlf

def setHeader (request : Request σ) (name value : Bytes) : Request σ :=
  { request with headers := request.headers.set name value }

def removeHeader (request : Request σ) (name : Bytes) : Request σ :=
  { request with headers := request.headers.erase name }

def setQuery (request : Request σ) (name value : Bytes) : Request σ :=
  { request with queries := request.queries.set name value }

def removeQuery (request : Request σ) (name : Bytes) : Request σ :=
  { request with queries := request.queries.erase name }

def sha256TrailerName : Bytes := ascii "x-amz-checksum-sha256"

/-- Declares a trailer with the SHA-256 of the body, computed while the body is read. -/
def withSha256Trailer (request : Request σ) (shared : Shared) : Request σ × Shared :=
  let (trailer, shared) := shared.newTrailer .computedByReaders
  let (id, shared) := shared.newStream
  ({ request with
      body := .checksummed id request.body trailer
      trailers := request.trailers ++ [⟨sha256TrailerName, trailer⟩] }, shared)

end Request

end SigV4
