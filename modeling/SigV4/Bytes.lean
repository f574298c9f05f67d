/-!
# Byte strings

Whatever is hashed, signed or sent is a list of bytes and nothing is decoded as text, so every
operation of the library is total on arbitrary bytes.
-/

namespace SigV4

abbrev Bytes := List UInt8

namespace Bytes

/-- The bytes of ASCII characters; a character outside ASCII has no meaning here. -/
def ofChars (chars : List Char) : Bytes := chars.map fun c => UInt8.ofNat c.toNat

/-- Decimal digits without leading zeros. -/
def decimal (n : Nat) : Bytes := ofChars (Nat.toDigits 10 n)

/-- Decimal digits with a minus sign in front of negative numbers. -/
def signedDecimal : Int → Bytes
  | .ofNat n => decimal n
  | .negSucc n => 45 :: decimal (n + 1)

/-- Lower-case hexadecimal digits without leading zeros. -/
def hexNumeral (n : Nat) : Bytes := ofChars (Nat.toDigits 16 n)

/-- The parts with one separator between any two neighbours. -/
def join (separator : Bytes) : List Bytes → Bytes
  | [] => []
  | part :: parts => part ++ parts.flatMap (separator ++ ·)

/-- The text in front of the first `needle` and the text behind it. -/
def cut? (needle text : Bytes) : Option (Bytes × Bytes) :=
  go [] text
where
  /-- Looks for `needle`, the bytes already passed stand reversed in `passed`. -/
  go (passed : Bytes) : Bytes → Option (Bytes × Bytes)
    | [] => if needle.isEmpty then some (passed.reverse, []) else none
    | b :: rest =>
      if needle.isPrefixOf (b :: rest) then
        some (passed.reverse, (b :: rest).drop needle.length)
      else
        go (b :: passed) rest

theorem cut?_go_length {needle front back : Bytes} (hn : needle ≠ []) {passed text : Bytes}
    (h : cut?.go needle passed text = some (front, back)) : back.length < text.length := by
  induction text generalizing passed with
  | nil => simp [cut?.go, hn] at h
  | cons b rest ih =>
    rw [cut?.go] at h
    split at h
    · obtain ⟨-, rfl⟩ := by simpa using h
      have := List.length_pos_iff.mpr hn
      simp only [List.length_drop, List.length_cons]
      omega
    · exact Nat.lt_succ_of_lt (ih h)

theorem cut?_length {needle text front back : Bytes} (hn : needle ≠ [])
    (h : cut? needle text = some (front, back)) : back.length < text.length :=
  cut?_go_length hn h

/-- The parts between the bytes that are `p`; there is one part more than there are such bytes. -/
def splitWhere (p : UInt8 → Bool) (text : Bytes) : List Bytes :=
  go [] text
where
  /-- The bytes of the current part stand reversed in `part`. -/
  go (part : Bytes) : Bytes → List Bytes
    | [] => [part.reverse]
    | b :: rest => if p b then part.reverse :: go [] rest else go (b :: part) rest

/-- The parts between separators. -/
def split (separator : UInt8) (text : Bytes) : List Bytes := splitWhere (· == separator) text

/-- Byte-wise order of pairs, the first components first. -/
def pairBefore (a b : Bytes × Bytes) : Bool :=
  decide (a.1 < b.1) || (a.1 == b.1 && decide (a.2 < b.2))

end Bytes

/-- The bytes of an ASCII literal. -/
def ascii (text : String) : Bytes := Bytes.ofChars text.toList

def crlf : Bytes := [13, 10]

/-- A line break in a value would let it forge lines of a head or of a trailer block. -/
def hasLineBreak (text : Bytes) : Bool := text.any fun b => b == 13 || b == 10

end SigV4
