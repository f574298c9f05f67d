import SigV4.Request

/-!
# Responses

The head of a response is cut into lines up to the first empty one, and each line is read on its
own; what follows is the body. A service names its error in a header, in an XML element or in a
JSON member.
-/

namespace SigV4

/-- The status lines that are told apart. -/
inductive Status where
  | unknown
  | ok
  | created
  | noContent
  | partialContent
  | badRequest
  | unauthorized
  | forbidden
  | notFound
  | conflict
  | lengthRequired
  | rangeNotSatisfiable
  | tooManyRequests
  | internalServerError
  | serviceUnavailable
  | slowDown
deriving DecidableEq, Repr

namespace Status

def text : Status → Bytes
  | unknown => ascii "UNKNOWN"
  | ok => ascii "200 OK"
  | created => ascii "201 Created"
  | noContent => ascii "204 No Content"
  | partialContent => ascii "206 Partial Content"
  | badRequest => ascii "400 Bad Request"
  | unauthorized => ascii "401 Unauthorized"
  | forbidden => ascii "403 Forbidden"
  | notFound => ascii "404 Not Found"
  | conflict => ascii "409 Conflict"
  | lengthRequired => ascii "411 Length Required"
  | rangeNotSatisfiable => ascii "416 Range Not Satisfiable"
  | tooManyRequests => ascii "429 Too Many Requests"
  | internalServerError => ascii "500 Internal Server Error"
  | serviceUnavailable => ascii "503 Service Unavailable"
  | slowDown => ascii "503 Slow Down"

def known : List Status :=
  [ok, created, noContent, partialContent, badRequest, unauthorized, forbidden, notFound, conflict,
    lengthRequired, rangeNotSatisfiable, tooManyRequests, internalServerError, serviceUnavailable,
    slowDown]

/-- The status whose text starts the rest of a status line; no two texts start one line. -/
def ofLine (rest : Bytes) : Status := (known.find? (·.text.isPrefixOf rest)).getD unknown

def isSuccess : Status → Bool
  | ok | created | noContent | partialContent => true
  | _ => false

end Status

structure Response where
  version : Version := .http11
  status : Status := .unknown
  headers : Headers := ∅
  body : Bytes := []

namespace Response

instance : Inhabited Response := ⟨{}⟩

/-- The lines in front of the first empty line, and what follows that one. Without an empty line
there is no second part, and the end that no line break closes is not a line. -/
def headLines (raw : Bytes) : List Bytes × Option Bytes :=
  go [] raw
where
  /-- The bytes of the current line stand reversed in `line`. -/
  go (line : Bytes) : Bytes → List Bytes × Option Bytes
    | [] => ([], none)
    | 13 :: 10 :: rest =>
      if line.isEmpty then ([], some rest)
      else
        let (lines, body) := go [] rest
        (line.reverse :: lines, body)
    | b :: rest => go (b :: line) rest

/-- Reads version and status; one byte, whichever it is, parts them. -/
def parseStatusLine (line : Bytes) : Outcome (Version × Status) :=
  match [Version.http10, .http11].find? (·.text.isPrefixOf line) with
  | none => .error (.invalidInput (.response .versionUnsupported))
  | some version =>
    match line.drop version.text.length with
    | [] => .error .statusLineCut
    | _ :: rest => .ok (version, .ofLine rest)

/-- Reads a name and a value, from which leading blanks are dropped. -/
def parseHeader (line : Bytes) : Outcome (Bytes × Bytes) :=
  match Bytes.cut? (ascii ":") line with
  | none | some ([], _) => .error (.invalidInput (.response .headerNameMissing))
  | some (name, value) => .ok (name, value.dropWhile isBlank)

/-- The lines are read in order, so the first fault in a line is reported even where the head is
incomplete too. -/
def parse (raw : Bytes) : Outcome Response :=
  match headLines raw with
  | ([], none) => .error (.invalidInput (.response .incompleteHead))
  | ([], some _) => .error (.invalidInput (.response .statusLineMissing))
  | (statusLine :: lines, body?) => do
    let (version, status) ← parseStatusLine statusLine
    let headers ← lines.mapM parseHeader
    match body? with
    | none => .error (.invalidInput (.response .incompleteHead))
    | some body => .ok { version, status, headers := .ofList _ headers, body }

/-- The content of the first `Code` element. -/
def xmlErrorCode (body : Bytes) : Option Bytes := do
  let (_, rest) ← Bytes.cut? (ascii "<Code>") body
  let (code, _) ← Bytes.cut? (ascii "</Code>") rest
  some code

/-- What follows the last `#`, all if there is none. -/
def withoutNamespace (name : Bytes) : Bytes := (name.reverse.takeWhile (· != 35)).reverse

/-- The string that follows the first `__type` key, without its namespace. -/
def jsonErrorCode (body : Bytes) : Option Bytes := do
  let (_, rest) ← Bytes.cut? (ascii "\"__type\"") body
  let (_, rest) ← Bytes.cut? (ascii ":") rest
  let (_, rest) ← Bytes.cut? (ascii "\"") rest
  let (code, _) ← Bytes.cut? (ascii "\"") rest
  some (withoutNamespace code)

/-- The header wins, up to its first colon; then the XML element, then the JSON member. -/
def errorCode (response : Response) : Option Bytes :=
  match response.headers.get? (ascii "x-amzn-ErrorType") with
  | some type => some (type.takeWhile (· != 58))
  | none => xmlErrorCode response.body <|> jsonErrorCode response.body

end Response

end SigV4
