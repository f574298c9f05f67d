import SigV4.Failure

/-!
# Base64

RFC 4648, section 4, with padding. Checksums are sent in this form, the digest of a payload as one text of
forty-four letters. A text that is said to be longer than `maxLength` is refused before it is read
(`encodeAs`).
-/

namespace SigV4.Base64

/-- The letter of a number below sixty-four. -/
def letter (n : UInt8) : UInt8 :=
  if n < 26 then 65 + n else if n < 52 then 71 + n else if n < 62 then n - 4
  else if n = 62 then 43 else 47

/-- Three bytes make four letters; `=` fills the last group. -/
def encode : Bytes → Bytes
  | [] => []
  | [a] => [letter (a >>> 2), letter ((a &&& 3) <<< 4), 61, 61]
  | [a, b] =>
    [letter (a >>> 2), letter (((a &&& 3) <<< 4) ||| (b >>> 4)), letter ((b &&& 15) <<< 2), 61]
  | a :: b :: c :: rest =>
    letter (a >>> 2) :: letter (((a &&& 3) <<< 4) ||| (b >>> 4))
      :: letter (((b &&& 15) <<< 2) ||| (c >>> 6)) :: letter (c &&& 63) :: encode rest

/-- The longest input that is encoded, one byte short of two GiB. -/
def maxLength : Nat := 2147483647

/-- `encode` for a text that is said to have `length` bytes. -/
def encodeAs (length : Nat) (text : Bytes) : Outcome Bytes :=
  if maxLength < length then .error (.invalidInput .base64Length) else .ok (encode text)

end SigV4.Base64
