import SigV4.Failure
import SigV4.Ordered

/-!
# The aws-chunked wire format

A payload is cut into frames. A frame is the length in hexadecimal, the chunk signature where
chunks are signed, a line break, the data and a line break; a frame of no data ends the payload
and is followed by the trailing headers and an empty line.
-/

namespace SigV4.Chunked

def signatureMark : Bytes := ascii ";chunk-signature="

def trailerSignatureMark : Bytes := ascii "x-amz-trailer-signature:"

/-- A signature is the hexadecimal form of thirty-two bytes. -/
def signatureLength : Nat := 64

/-- The frame of one chunk; the last one, without data, leaves its second line break to the end of
the stream. -/
def frame (data : Bytes) (signature : Option Bytes) : Bytes :=
  Bytes.hexNumeral data.length
    ++ (match signature with | some text => signatureMark ++ text | none => [])
    ++ crlf ++ data ++ if data.isEmpty then [] else crlf

/-- The text that is signed for trailing headers: a line `name:value` each, the names in lower case
and the values with their blanks collapsed, sorted. -/
def canonicalTrailers (trailers : List (Bytes × Bytes)) : Bytes :=
  (Ordered.sort Bytes.pairBefore (trailers.map fun (name, value) => (toLower name, collapseBlanks value)))
    |>.flatMap fun (name, value) => name ++ ascii ":" ++ value ++ ascii "\n"

/-- The lines of a text in which each one ends in a line feed, from line feed to line feed, with a line
break of the wire behind each. -/
def wireLines (text : Bytes) : Bytes :=
  match _h : Bytes.cut? [10] text with
  | none => []
  | some (line, rest) => line ++ crlf ++ wireLines rest
termination_by text.length
decreasing_by exact Bytes.cut?_length (List.cons_ne_nil _ _) ‹_›

/-- The trailing headers with the signature over them, if there is one. -/
def trailerBlock (canonical : Bytes) (signature : Option Bytes) : Bytes :=
  wireLines canonical
    ++ match signature with | some text => trailerSignatureMark ++ text ++ crlf | none => []

/-- Length of a frame with `length` bytes of data and both line breaks. -/
def frameLength (signed : Bool) (length : UInt64) : UInt64 :=
  let mark := if signed then signatureMark.length + signatureLength else 0
  (Bytes.hexNumeral length.toNat).length.toUInt64 + mark.toUInt64 + length + 4

/-- Length of the whole stream over `length` bytes of payload, without trailers. -/
def encodedLength (length chunkSize : UInt64) (signed : Bool) : UInt64 :=
  let rest := length % chunkSize
  length / chunkSize * frameLength signed chunkSize
    + (if rest = 0 then 0 else frameLength signed rest) + frameLength signed 0

/-- `encodedLength` where there is one. -/
def encodedLength? (length chunkSize : UInt64) (signed : Bool) : Outcome UInt64 :=
  if chunkSize = 0 then .error (.configuration .chunkSizeZero)
  else .ok (encodedLength length chunkSize signed)

end SigV4.Chunked
