import SigV4.Chunked.Context

/-!
# Reading aws-chunked text

A strict reader of frames: a length in lower-case digits, in a signed stream a signature of sixty-four
such digits, exactly as much data as the length says, and a line break behind it. Of signatures only
those are accepted that follow from the ones before them.
-/

namespace SigV4

namespace Chunked

/-- A hexadecimal number of lower-case digits, of which there is at least one. -/
def hexNumeral? (digits : Bytes) : Option Nat :=
  if digits.isEmpty then none
  else digits.foldlM (fun n b => (Hex.value? b).map (16 * n + ·)) 0

/-- Length and signature in the first line of a frame. -/
def frameLine? (signed : Bool) (line : Bytes) : Option (Nat × Option Bytes) :=
  if signed then do
    let (digits, signature) ← Bytes.cut? signatureMark line
    let length ← hexNumeral? digits
    if signature.length = signatureLength && signature.all fun b => (Hex.value? b).isSome then
      some (length, some signature)
    else
      none
  else
    (hexNumeral? line).map (·, none)

/-- Data and signature of the first frame, and the text behind it. -/
def frame? (signed : Bool) (text : Bytes) : Option (Bytes × Option Bytes × Bytes) :=
  match Bytes.cut? crlf text with
  | none => none
  | some (line, rest) =>
    match frameLine? signed line with
    | none => none
    | some (length, signature) =>
      if length = 0 then
        some ([], signature, rest)
      else if length ≤ rest.length && crlf.isPrefixOf (rest.drop length) then
        some (rest.take length, signature, rest.drop (length + crlf.length))
      else
        none

theorem frame?_length {signed : Bool} {text data rest : Bytes} {signature : Option Bytes}
    (h : frame? signed text = some (data, signature, rest)) : rest.length < text.length := by
  unfold frame? at h
  split at h
  · simp at h
  next line rest' hcut =>
    have hlt := Bytes.cut?_length (by simp [crlf]) hcut
    split at h
    · simp at h
    · split at h
      · obtain ⟨-, -, rfl⟩ := by simpa using h
        exact hlt
      · split at h
        · obtain ⟨-, -, rfl⟩ := by simpa using h
          simp only [List.length_drop]
          omega
        · simp at h

end Chunked

namespace ChunkContext

/-- Reads frames up to the one without data and checks their signatures. Returns the payload, the
last signature and the text that follows. -/
def payload? (c : ChunkContext) (previous : Bytes) (text : Bytes) : Option (Bytes × Bytes × Bytes) :=
  match _h : Chunked.frame? c.signed text with
  | none => none
  | some (data, signature, rest) =>
    if signature ≠ c.signChunk previous data then
      none
    else if data.isEmpty then
      some ([], signature.getD previous, rest)
    else
      match c.payload? (signature.getD previous) rest with
      | none => none
      | some (payload, last, rest) => some (data ++ payload, last, rest)
termination_by text.length
decreasing_by exact Chunked.frame?_length ‹_›

end ChunkContext

end SigV4
