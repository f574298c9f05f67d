import SigV4.Text

/-!
# Failures

Every failure is a cause; its message is a function of the cause (`Failure.message`). A caller's
own sources and providers fail with `reported`, `ConfigurationFault.other` or
`CredentialsFault.other`, whose text is theirs.
-/

namespace SigV4

/-- A configuration or an identity that cannot sign. -/
inductive ConfigurationFault where
  | regionMissing
  | serviceMissing
  | hashMissing
  | chunkSizeZero
  | expiryMissing
  | expiryOutOfRange
  | identityUnsupported
  | credentialsIncomplete
  /-- Trailers are declared, and the payload hash that was asked for sends none. -/
  | trailersUnsent
  | presignedChunks
  | chainEmpty
  | chainMemberInvalid
  | other (text : Bytes)
deriving DecidableEq, Repr

/-- Credentials that are not to be had, now or at all. -/
inductive CredentialsFault where
  | variableMissing (name : Bytes)
  | expirationInvalid (reason : Bytes)
  | chainExhausted (chain : Bytes)
  | expired (holder : Bytes)
  /-- Nobody promised the credentials, or they were taken already. -/
  | notAwaitable
  | timedOut
  | other (text : Bytes)
deriving DecidableEq, Repr

/-- A body that cannot be sent (again). -/
inductive BodyFault where
  | alreadyRead
  | oneShotHash
  | notOpenable
  | nothingToEncode
  | payloadMissing
deriving DecidableEq, Repr

/-- A request that has no canonical form. -/
inductive CanonicalFault where
  | hostMissing
  | headerLineBreak (name : Bytes)
  | trailerLineBreak (name : Bytes)
deriving DecidableEq, Repr

/-- A response head that is not one of HTTP/1.0 or HTTP/1.1. -/
inductive ResponseFault where
  | incompleteHead
  | statusLineMissing
  | versionUnsupported
  | headerNameMissing
deriving DecidableEq, Repr

/-- Input outside the form that its reader accepts. -/
inductive InputFault where
  | timestamp (text : Bytes)
  | httpDate (text : Bytes)
  | response (fault : ResponseFault)
  | base64Length
  | sourceMissing
deriving DecidableEq, Repr

inductive Failure where
  | configuration (fault : ConfigurationFault)
  /-- `transient` says that another attempt may succeed, `suppressed` lists the causes in order. -/
  | credentialsUnavailable (fault : CredentialsFault) (transient : Bool) (suppressed : List Failure)
  | unsignableBody (fault : BodyFault)
  | canonicalization (fault : CanonicalFault)
  | invalidInput (fault : InputFault)
  /-- A failure of the caller's own source or provider. -/
  | reported (text : Bytes)
  /-- A status line that ends where the blank behind the version should stand. -/
  | statusLineCut
  /-- A promise that was settled twice, or given up before it was settled. -/
  | promiseBroken
  /-- The value is promised, not there yet, and waiting for it could take for ever. -/
  | notSettled
  /-- SHA-256 has no digest for messages of `Sha256.maxLength` bytes or more. -/
  | payloadTooLong
deriving Repr

def ConfigurationFault.message : ConfigurationFault → Bytes
  | regionMissing => ascii "SigningConfig requires a region"
  | serviceMissing => ascii "SigningConfig requires a service"
  | hashMissing => ascii "A precalculated hash specification requires a hash"
  | chunkSizeZero => ascii "The aws-chunked chunk size must be positive"
  | expiryMissing => ascii "A presigned url requires expiresAfter"
  | expiryOutOfRange => ascii "expiresAfter must be between 1 second and 7 days"
  | identityUnsupported => ascii "The identity is not supported by the SigV4 signer"
  | credentialsIncomplete => ascii "The credentials require an access key id and a secret"
  | trailersUnsent => ascii "The hash specification override can not send the declared trailers"
  | presignedChunks => ascii "aws-chunked bodies require header signing"
  | chainEmpty => ascii "CredentialsProviderChain requires at least one provider"
  | chainMemberInvalid => ascii "CredentialsProviderChain contains an invalid provider"
  | other text => text

def CredentialsFault.message : CredentialsFault → Bytes
  | variableMissing name => ascii "Missing environment variable " ++ name
  | expirationInvalid reason =>
    ascii "Invalid environment variable AWS_CREDENTIAL_EXPIRATION: " ++ reason
  | chainExhausted chain => ascii "No credentials could be loaded from the chain: " ++ chain
  | expired holder => ascii "The credentials of " ++ holder ++ ascii " expired"
  | notAwaitable => ascii "Credentials future is not valid"
  | timedOut => ascii "Timed out waiting for credentials"
  | other text => text

def BodyFault.message : BodyFault → Bytes
  | alreadyRead => ascii "A one-shot body was already read and can not be signed again"
  | oneShotHash => ascii "A one-shot body can not be hashed before it is sent"
  | notOpenable => ascii "The body can not be opened"
  | nothingToEncode => ascii "aws-chunked requires a body or trailers"
  | payloadMissing => ascii "The aws-chunked stream has no payload"

def CanonicalFault.message : CanonicalFault → Bytes
  | hostMissing => ascii "The request has no host header"
  | headerLineBreak name => ascii "Header " ++ name ++ ascii " contains a line break"
  | trailerLineBreak name => ascii "Trailer " ++ name ++ ascii " contains a line break"

def ResponseFault.message : ResponseFault → Bytes
  | incompleteHead => ascii "Invalid HttpResponse: Incomplete header!"
  | statusLineMissing => ascii "Invalid HttpResponse: Missing first line!"
  | versionUnsupported => ascii "Invalid HttpResponse: Needs to be a HTTP type 1.0 or 1.1!"
  | headerNameMissing => ascii "Invalid HttpResponse: Headers need key and value!"

def InputFault.message : InputFault → Bytes
  | timestamp text => ascii "Invalid timestamp: " ++ text
  | httpDate text => ascii "Invalid http date: " ++ text
  | response fault => fault.message
  | base64Length => ascii "base64 input too large"
  | sourceMissing => ascii "Streaming body requires a reader factory"

namespace Failure

/-- What went wrong, in full. -/
def wording : Failure → Bytes
  | configuration fault => fault.message
  | credentialsUnavailable fault _ _ => fault.message
  | unsignableBody fault => fault.message
  | canonicalization fault => fault.message
  | invalidInput fault => fault.message
  | reported text => text
  | statusLineCut => ascii "The status line ends behind the version"
  | promiseBroken => ascii "The promise is broken"
  | notSettled => ascii "The value is not settled yet"
  | payloadTooLong => ascii "The payload is too long to be hashed"

/-- The wording up to a zero byte, which ends a message wherever it is shown. -/
def message (failure : Failure) : Bytes := failure.wording.takeWhile (· != 0)

/-- May the same request be attempted again? Only missing credentials can be a passing condition. -/
def retryable : Failure → Bool
  | credentialsUnavailable _ transient _ => transient
  | _ => false

end Failure

/-- The outcome of an operation that can fail. -/
abbrev Outcome := Except Failure

end SigV4
