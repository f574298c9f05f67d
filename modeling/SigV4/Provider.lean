import SigV4.Credentials

/-!
# Credentials providers

Providers form a tree: fixed credentials, environment variables and the caller's own providers are
its leaves, and a chain asks its members in order until one succeeds. Asking may change a provider,
so it answers with its next state, and with what it wrote to its log.
-/

namespace SigV4

/-- The environment variables that hold credentials. -/
structure Environment where
  accessKeyId : Option Bytes := none
  secretAccessKey : Option Bytes := none
  sessionToken : Option Bytes := none
  expiration : Option Bytes := none
deriving DecidableEq, Repr

namespace Environment

def providerName : Bytes := ascii "EnvironmentCredentialsProvider"

/-- An empty variable counts as missing. -/
def nonempty : Option Bytes → Option Bytes
  | some (b :: text) => some (b :: text)
  | _ => none

def required (name : Bytes) (value : Option Bytes) : Outcome Bytes :=
  match nonempty value with
  | some text => .ok text
  | none => .error (.credentialsUnavailable (.variableMissing name) false [])

def parseExpiration (text : Bytes) : Outcome Instant :=
  (Timestamp.parseIso text).mapError fun failure =>
    .credentialsUnavailable (.expirationInvalid failure.message) false []

def credentials (env : Environment) : Outcome Credentials := do
  let accessKeyId ← required (ascii "AWS_ACCESS_KEY_ID") env.accessKeyId
  let secretAccessKey ← required (ascii "AWS_SECRET_ACCESS_KEY") env.secretAccessKey
  let expiration ← (nonempty env.expiration).mapM parseExpiration
  return {
    accessKeyId, secretAccessKey, expiration
    sessionToken := nonempty env.sessionToken
    providerName }

end Environment

/-- A provider that the caller supplies. -/
class CredentialsSource (κ : Type) where
  name : κ → Bytes
  resolve : κ → Outcome Credentials × κ

inductive Provider (κ : Type) where
  | fixed (credentials : Credentials)
  | environment
  | custom (source : κ)
  | chain (members : List (Provider κ)) (log : Bool)

namespace Provider

variable {κ : Type}

def fixedName : Bytes := ascii "StaticCredentialsProvider"

/-- Fixed credentials, which are named after their provider unless they have a name. -/
def ofCredentials (credentials : Credentials) : Provider κ :=
  .fixed { credentials with
    providerName := if credentials.providerName.isEmpty then fixedName else credentials.providerName }

/-- A chain has members, and all of them are there. -/
def ofMembers (members : List (Option (Provider κ))) (log : Bool) : Outcome (Provider κ) :=
  if members.isEmpty then .error (.configuration .chainEmpty)
  else
    match members.mapM id with
    | none => .error (.configuration .chainMemberInvalid)
    | some members => .ok (.chain members log)

def loadedNote (name : Bytes) : Bytes :=
  ascii "[sigkit] loaded credentials from " ++ name ++ ascii "\n"

def failedNote (name : Bytes) (failure : Failure) : Bytes :=
  ascii "[sigkit] unable to load credentials from " ++ name ++ ascii ": " ++ failure.message
    ++ ascii "\n"

variable [CredentialsSource κ]

mutual

def name : Provider κ → Bytes
  | fixed _ => fixedName
  | environment => Environment.providerName
  | custom source => CredentialsSource.name source
  | chain members _ => ascii "Chain" ++ memberNames members

def memberNames : List (Provider κ) → Bytes
  | [] => []
  | member :: members => ascii " -> " ++ member.name ++ memberNames members

end

mutual

/-- Asks for credentials. A chain that comes to nothing is worth another attempt if one of its
members is. -/
def resolve (env : Environment) : Provider κ → Outcome Credentials × Provider κ × Bytes
  | fixed credentials => (.ok credentials, fixed credentials, [])
  | environment => (env.credentials, environment, [])
  | custom source =>
    let (outcome, source) := CredentialsSource.resolve source
    (outcome, custom source, [])
  | chain members log =>
    match resolveFirst env log members with
    | (.ok credentials, members, text) => (.ok credentials, chain members log, text)
    | (.error failures, members, text) =>
      (.error (.credentialsUnavailable (.chainExhausted (chain members log).name)
        (failures.any Failure.retryable) failures), chain members log, text)

/-- Asks the members in order until one succeeds. -/
def resolveFirst (env : Environment) (log : Bool) :
    List (Provider κ) → Except (List Failure) Credentials × List (Provider κ) × Bytes
  | [] => (.error [], [], [])
  | member :: members =>
    match resolve env member with
    | (.ok credentials, member, text) =>
      (.ok credentials, member :: members, text ++ if log then loadedNote member.name else [])
    | (.error failure, member, text) =>
      let text := text ++ if log then failedNote member.name failure else []
      match resolveFirst env log members with
      | (.ok credentials, members, more) => (.ok credentials, member :: members, text ++ more)
      | (.error failures, members, more) =>
        (.error (failure :: failures), member :: members, text ++ more)

end

end Provider

end SigV4
