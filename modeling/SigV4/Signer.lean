import SigV4.Canonical.Request
import SigV4.Clock
import SigV4.Provider
import SigV4.Signer.ChunkHeaders
import SigV4.Signer.PayloadHash

/-!
# Signing

Signing goes in three steps. `prepare` checks that there is something to sign, and what with;
`hashPayload` finds the text for the payload's place, for which it may read the body; `finish` adds
date, token and hash to the request and signs its canonical form. A body that is sent aws-chunked
is wrapped at the end, since its first chunk is signed from the signature of the request.
-/

namespace SigV4

structure SignedRequest (σ : Type) where
  request : Request σ
  signature : Bytes

namespace Signer

variable {σ : Type}

/-- A request that is ready to be signed, but for the hash of its payload. -/
structure Attempt (σ : Type) where
  request : Request σ
  credentials : Credentials
  amzDate : Bytes
  hash : PayloadHash

namespace Attempt

def date8 (attempt : Attempt σ) : Bytes := attempt.amzDate.take 8

def scope (attempt : Attempt σ) (config : Config) : Bytes :=
  Signature.scope attempt.date8 config.region config.service

/-- Whom the signature is for and what it is good for. -/
def credential (attempt : Attempt σ) (config : Config) : Bytes :=
  attempt.credentials.accessKeyId ++ ascii "/" ++ attempt.scope config

def signingKey (attempt : Attempt σ) (config : Config) : SigningKey :=
  Signature.deriveKey attempt.credentials.secretAccessKey attempt.date8 config.region config.service

/-- The session token that is sent. -/
def token? (attempt : Attempt σ) (config : Config) : Option Bytes :=
  if config.omitToken then none else attempt.credentials.sessionToken

end Attempt

def identityCredentials : Identity → Outcome Credentials
  | .other => .error (.configuration .identityUnsupported)
  | .credentials credentials =>
    if credentials.accessKeyId.isEmpty || credentials.secretAccessKey.isEmpty then
      .error (.configuration .credentialsIncomplete)
    else
      .ok credentials

/-- The request with its payload in place of an aws-chunked body that an earlier attempt made. -/
def unwrapBody (request : Request σ) : Request σ :=
  match request.body.payload? with
  | some payload => removeChunkHeaders { request with body := payload }
  | none => request

def holderName (credentials : Credentials) : Bytes :=
  if credentials.providerName.isEmpty then ascii "the caller" else credentials.providerName

/-- Credentials are expired from their expiration on. -/
def checkExpiration (credentials : Credentials) (time : Instant) : Outcome Unit :=
  if credentials.expiration.any (·.nanoseconds ≤ time.nanoseconds) then
    .error (.credentialsUnavailable (.expired (holderName credentials)) true [])
  else
    .ok ()

/-- Announces the encoding of a body that is sent aws-chunked. -/
def announceChunks (request : Request σ) (hash : PayloadHash) (config : Config) :
    Outcome (Request σ) := do
  if config.presigned then
    throw (.configuration .presignedChunks)
  if request.body.isEmpty && request.trailers.isEmpty then
    throw (.unsignableBody .nothingToEncode)
  addChunkHeaders request hash.signsChunks config.chunkSize

def prepare (clock : Clock) (config : Config) (identity : Identity) (request : Request σ)
    (shared : Shared) : Outcome (Attempt σ) := do
  config.validate
  let credentials ← identityCredentials identity
  let request := unwrapBody request
  if request.body.consumed shared then
    throw (.unsignableBody .alreadyRead)
  let time := config.signingDate.getD clock.now
  checkExpiration credentials time
  let hash ← resolveHash request config
  let request ← if hash.streaming then announceChunks request hash config else pure request
  return { request, credentials, hash, amzDate := Timestamp.amzDate time }

def queryAlgorithm : Bytes := ascii "X-Amz-Algorithm"

def queryCredential : Bytes := ascii "X-Amz-Credential"

def queryExpires : Bytes := ascii "X-Amz-Expires"

def querySignedHeaders : Bytes := ascii "X-Amz-SignedHeaders"

/-- The name of the date, in headers and queries. -/
def dateName : Bytes := ascii "X-Amz-Date"

/-- The name of the session token, in headers and queries. -/
def tokenName : Bytes := ascii "X-Amz-Security-Token"

def authorization : Bytes := ascii "Authorization"

namespace Attempt

/-- The query parameters of a presigned request but for the signature. All of them are signed, and
`X-Amz-SignedHeaders` lists the headers that are signed beside them. -/
def presignedRequest (attempt : Attempt σ) (config : Config) (hash : Bytes) :
    Outcome (Request σ) := do
  let request := attempt.request.removeHeader authorization
    |>.removeQuery Canonical.signatureParameter
    |>.setQuery queryAlgorithm Signature.algorithm
    |>.setQuery queryCredential (attempt.credential config)
    |>.setQuery dateName attempt.amzDate
    |>.setQuery queryExpires (Bytes.signedDecimal (config.expiresAfter.getD 0))
    |>.removeQuery tokenName
  let request := (attempt.token? config).elim request fun token => request.setQuery tokenName token
  let request := if config.hashHeader then request.setHeader contentHash hash else request
  let canonical ← CanonicalRequest.build request config hash
  return request.setQuery querySignedHeaders canonical.signedHeaders

/-- The headers of a request that is signed in a header, but for the signature. -/
def datedRequest (attempt : Attempt σ) (config : Config) (hash : Bytes) : Request σ :=
  let request := attempt.request.removeHeader authorization
    |>.setHeader dateName attempt.amzDate
    |>.removeHeader tokenName
  let request := (attempt.token? config).elim request fun token => request.setHeader tokenName token
  if config.hashHeader || attempt.hash.streaming then request.setHeader contentHash hash else request

/-- The signature of a request whose canonical form this is. -/
def signature (attempt : Attempt σ) (config : Config) (canonical : CanonicalRequest) : Bytes :=
  Signature.sign (attempt.signingKey config) <|
    Signature.stringToSign attempt.amzDate (attempt.scope config) canonical.text

def authorizationValue (attempt : Attempt σ) (config : Config) (signedHeaders signature : Bytes) :
    Bytes :=
  Signature.algorithm ++ ascii " Credential=" ++ attempt.credential config
    ++ ascii ", SignedHeaders=" ++ signedHeaders ++ ascii ", Signature=" ++ signature

/-- Signs the request and adds the signature to it. -/
def finish (attempt : Attempt σ) (config : Config) (hash : Bytes) : Outcome (SignedRequest σ) := do
  if config.presigned then
    let request ← attempt.presignedRequest config hash
    let canonical ← CanonicalRequest.build request config hash
    let signature := attempt.signature config canonical
    return { request := request.setQuery Canonical.signatureParameter signature, signature }
  else
    let request := attempt.datedRequest config hash
    let canonical ← CanonicalRequest.build request config hash
    let signature := attempt.signature config canonical
    let value := attempt.authorizationValue config canonical.signedHeaders signature
    return { request := request.setHeader authorization value, signature }

/-- What every reader of an aws-chunked body starts from. -/
def chunkContext (attempt : Attempt σ) (config : Config) (signed : SignedRequest σ) :
    ChunkContext where
  key := attempt.signingKey config
  amzDate := attempt.amzDate
  scope := attempt.scope config
  seed := signed.signature
  signed := attempt.hash.signsChunks
  chunkSize := config.chunkSize
  trailers := signed.request.trailers

end Attempt

/-- The signed request with its body encoded aws-chunked. -/
def encodeBody (signed : SignedRequest σ) (context : ChunkContext) (shared : Shared) :
    SignedRequest σ × Shared :=
  let (id, shared) := shared.newStream
  let body := .chunked id signed.request.body context
  ({ signed with request := { signed.request with body } }, shared)

/-- Signs a request for an identity. -/
def sign [ByteSource σ] (clock : Clock) (config : Config) (identity : Identity)
    (request : Request σ) (shared : Shared) : Outcome (SignedRequest σ) × Shared :=
  match prepare clock config identity request shared with
  | .error failure => (.error failure, shared)
  | .ok attempt =>
    match hashPayload attempt.request.body attempt.hash shared with
    | (.error failure, shared) => (.error failure, shared)
    | (.ok hash, shared) =>
      match attempt.finish config hash with
      | .error failure => (.error failure, shared)
      | .ok signed =>
        if attempt.hash.streaming then
          let (signed, shared) := encodeBody signed (attempt.chunkContext config signed) shared
          (.ok signed, shared)
        else
          (.ok signed, shared)

/-- Signs a request with credentials from a provider, which is asked only if the configuration is
valid. Returns also the provider's next state and what was logged. -/
def signWith [ByteSource σ] {κ : Type} [CredentialsSource κ] (clock : Clock) (config : Config)
    (env : Environment) (provider : Provider κ) (request : Request σ) (shared : Shared) :
    Outcome (SignedRequest σ) × Shared × Provider κ × Bytes :=
  match config.validate with
  | .error failure => (.error failure, shared, provider, [])
  | .ok () =>
    match provider.resolve env with
    | (.error failure, provider, text) => (.error failure, shared, provider, text)
    | (.ok credentials, provider, text) =>
      let (outcome, shared) := sign clock config (.credentials credentials) request shared
      (outcome, shared, provider, text)

end Signer

end SigV4
