import SigV4.Failure
import SigV4.Fields

/-!
# Canonical headers

Which headers are signed, and the lines in which they are. A header is known by its lower-cased name, and
all values of one stand on one line:

* **`isSkipped`**, **`isRequired`**, **`isSigned`**: what may change on the way is never signed, what the
  service checks always is, and a filter chooses among the rest.
* **`signedHeaders`**: the selection. The collection is sorted by lower-cased name, so neighbours are gathered
  (`gather`) and nothing has to be looked up.
* **`canonicalHeaderLine`**: the line of one name, with the blanks of its values collapsed. A value with a line
  break would pass for two lines and has no canonical form.
-/

namespace SigV4.Canonical

/-- Headers that the transport or a proxy may change are never signed. -/
def isSkipped (lowerName : Bytes) : Bool :=
  [ascii "authorization", ascii "connection", ascii "expect", ascii "transfer-encoding",
    ascii "user-agent", ascii "x-amzn-trace-id"].contains lowerName

/-- Headers that the service checks are signed whatever a filter says. -/
def isRequired (lowerName : Bytes) : Bool :=
  [ascii "host", ascii "x-amz-content-sha256", ascii "x-amz-date",
    ascii "x-amz-security-token"].contains lowerName

def isSigned (filter : Option (Bytes → Bool)) (lowerName : Bytes) : Bool :=
  !isSkipped lowerName && filter.all fun accepts => isRequired lowerName || accepts lowerName

/-- Gathers the values of neighbours with the same name. -/
def gather : List (Bytes × Bytes) → List (Bytes × List Bytes)
  | [] => []
  | (name, value) :: rest =>
    match gather rest with
    | (next, values) :: groups =>
      if name = next then (name, value :: values) :: groups
      else (name, [value]) :: (next, values) :: groups
    | [] => [(name, [value])]

/-- The headers to sign by lower-case name. Headers are sorted by that name, so all values of one
are neighbours. -/
def signedHeaders (headers : Headers) (filter : Option (Bytes → Bool)) :
    List (Bytes × List Bytes) :=
  gather <|
    (headers.entries.map fun (name, value) => (toLower name, value)).filter fun header =>
      isSigned filter header.1

/-- The values of one header on one line. -/
def canonicalValue (name : Bytes) (values : List Bytes) : Outcome Bytes :=
  if values.any hasLineBreak then .error (.canonicalization (.headerLineBreak name))
  else .ok (Bytes.join (ascii ",") (values.map collapseBlanks))

def canonicalHeaderLine (name : Bytes) (values : List Bytes) : Outcome Bytes := do
  let value ← canonicalValue name values
  return name ++ ascii ":" ++ value ++ ascii "\n"

end SigV4.Canonical
