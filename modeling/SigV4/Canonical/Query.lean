import SigV4.Fields
import SigV4.Percent

/-!
# Canonical queries

The query as it is signed: every parameter encoded, in an order that does not depend on the order in which
parameters were given. Names are compared in their encoded form, and values only between equal names, so
parameters that occur more than once have a place each. The signature of a presigned request is a parameter
too, and the only one that is left out.
-/

namespace SigV4.Canonical

/-- The parameter that carries a signature is not itself signed. -/
def signatureParameter : Bytes := ascii "X-Amz-Signature"

/-- The encoded parameters, sorted by encoded name and then by encoded value. -/
def canonicalQuery (queries : Queries) (presigned : Bool) : Bytes :=
  let signed := queries.entries.filter fun query => !(presigned && query.1 == signatureParameter)
  let encoded := signed.map fun (name, value) => (Percent.encode name, Percent.encode value)
  Bytes.join (ascii "&") <|
    (Ordered.sort Bytes.pairBefore encoded).map fun (name, value) => name ++ ascii "=" ++ value

end SigV4.Canonical
