import SigV4.Bytes

/-!
# Hexadecimal text

Digests and signatures are written in lower case (`encode`), percent encoding writes in upper case
(`encodeUpper`). The two readers `value?` and `upperValue?` accept the digits of their own case only, so a text
that is read back was written in that case.
-/

namespace SigV4.Hex

/-- The digit of a number below sixteen. -/
def digit (n : UInt8) : UInt8 := if n < 10 then 48 + n else 87 + n

def upperDigit (n : UInt8) : UInt8 := if n < 10 then 48 + n else 55 + n

/-- Two lower-case digits a byte. -/
def encode (bytes : Bytes) : Bytes := bytes.flatMap fun b => [digit (b / 16), digit (b % 16)]

/-- Two upper-case digits a byte. -/
def encodeUpper (bytes : Bytes) : Bytes :=
  bytes.flatMap fun b => [upperDigit (b / 16), upperDigit (b % 16)]

/-- The number that a lower-case digit stands for. -/
def value? (b : UInt8) : Option Nat :=
  if 48 ≤ b ∧ b ≤ 57 then some (b.toNat - 48)
  else if 97 ≤ b ∧ b ≤ 102 then some (b.toNat - 87)
  else none

/-- The number that an upper-case digit stands for. -/
def upperValue? (b : UInt8) : Option Nat :=
  if 48 ≤ b ∧ b ≤ 57 then some (b.toNat - 48)
  else if 65 ≤ b ∧ b ≤ 70 then some (b.toNat - 55)
  else none

end SigV4.Hex
