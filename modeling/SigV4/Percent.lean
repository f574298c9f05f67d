import SigV4.Hex

/-!
# Percent encoding

RFC 3986, section 2: unreserved characters stand for themselves, any other byte is written as `%`
and two upper-case hexadecimal digits.
-/

namespace SigV4.Percent

/-- Letters, digits, `-`, `_`, `.` and `~`. -/
def isUnreserved (b : UInt8) : Bool :=
  (65 ≤ b && b ≤ 90) || (97 ≤ b && b ≤ 122) || (48 ≤ b && b ≤ 57)
    || b == 45 || b == 95 || b == 46 || b == 126

def encodeByte (b : UInt8) : Bytes :=
  if isUnreserved b then [b] else [37, Hex.upperDigit (b / 16), Hex.upperDigit (b % 16)]

/-- A query key or value; a slash is encoded too. -/
def encode (text : Bytes) : Bytes := text.flatMap encodeByte

/-- A path: as `encode`, but the slashes between segments stay. -/
def encodePath (path : Bytes) : Bytes := path.flatMap fun b => if b == 47 then [47] else encodeByte b

/-- Reads `%` and two upper-case digits as one byte and any other byte as itself. -/
def decode : Bytes → Option Bytes
  | [] => some []
  | b :: rest =>
    if b = 37 then
      match rest with
      | high :: low :: rest => do
        let high ← Hex.upperValue? high
        let low ← Hex.upperValue? low
        let rest ← decode rest
        return (16 * high + low).toUInt8 :: rest
      | _ => none
    else
      (decode rest).map (b :: ·)

end SigV4.Percent
