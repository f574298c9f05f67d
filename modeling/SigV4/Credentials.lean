import SigV4.Timestamp

/-!
# Credentials

Who signs. Credentials carry a secret and possibly a session token, and they are printed in logs, so their
description (`Credentials.describe`) shows neither. An `Identity` is what a signer is handed: the interface
admits identities of other kinds, and the signer refuses them.
-/

namespace SigV4

structure Credentials where
  accessKeyId : Bytes := []
  secretAccessKey : Bytes := []
  sessionToken : Option Bytes := none
  providerName : Bytes := []
  expiration : Option Instant := none
deriving DecidableEq, Repr

namespace Credentials

/-- A description without the secret and the token. -/
def describe (c : Credentials) : Bytes :=
  ascii "Credentials(accessKeyId=" ++ c.accessKeyId ++ ascii ", secretAccessKey=<redacted>"
    ++ (if c.sessionToken.isSome then ascii ", sessionToken=<redacted>" else [])
    ++ (if c.providerName.isEmpty then [] else ascii ", providerName=" ++ c.providerName)
    ++ ascii ")"

end Credentials

/-- Who a request is signed for. Only credentials can sign. -/
inductive Identity where
  | credentials (credentials : Credentials)
  | other
deriving DecidableEq, Repr

end SigV4
