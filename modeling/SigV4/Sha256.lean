import SigV4.Hex

/-!
# SHA-256

FIPS 180-4 as a running digest: bytes are pushed one by one and every sixty-fourth compresses a
block, so feeding a message in parts is the same fold as feeding it at once (`update_append`).
-/

namespace SigV4

namespace Sha256

/-- The eight words that one block's compression hands to the next. -/
structure Chaining where
  a : UInt32
  b : UInt32
  c : UInt32
  d : UInt32
  e : UInt32
  f : UInt32
  g : UInt32
  h : UInt32
deriving DecidableEq, Repr

def initial : Chaining :=
  ⟨0x6a09e667, 0xbb67ae85, 0x3c6ef372, 0xa54ff53a, 0x510e527f, 0x9b05688c, 0x1f83d9ab, 0x5be0cd19⟩

/-- The first thirty-two bits of the fractional parts of the cube roots of the first sixty-four
primes, one word a round. -/
def roundConstants : List UInt32 := [
  0x428a2f98, 0x71374491, 0xb5c0fbcf, 0xe9b5dba5, 0x3956c25b, 0x59f111f1, 0x923f82a4, 0xab1c5ed5,
  0xd807aa98, 0x12835b01, 0x243185be, 0x550c7dc3, 0x72be5d74, 0x80deb1fe, 0x9bdc06a7, 0xc19bf174,
  0xe49b69c1, 0xefbe4786, 0x0fc19dc6, 0x240ca1cc, 0x2de92c6f, 0x4a7484aa, 0x5cb0a9dc, 0x76f988da,
  0x983e5152, 0xa831c66d, 0xb00327c8, 0xbf597fc7, 0xc6e00bf3, 0xd5a79147, 0x06ca6351, 0x14292967,
  0x27b70a85, 0x2e1b2138, 0x4d2c6dfc, 0x53380d13, 0x650a7354, 0x766a0abb, 0x81c2c92e, 0x92722c85,
  0xa2bfe8a1, 0xa81a664b, 0xc24b8b70, 0xc76c51a3, 0xd192e819, 0xd6990624, 0xf40e3585, 0x106aa070,
  0x19a4c116, 0x1e376c08, 0x2748774c, 0x34b0bcb5, 0x391c0cb3, 0x4ed8aa4a, 0x5b9cca4f, 0x682e6ff3,
  0x748f82ee, 0x78a5636f, 0x84c87814, 0x8cc70208, 0x90befffa, 0xa4506ceb, 0xbef9a3f7, 0xc67178f2]

def rotateRight (x n : UInt32) : UInt32 := (x >>> n) ||| (x <<< (32 - n))

def round (s : Chaining) (k w : UInt32) : Chaining :=
  let t := s.h + (rotateRight s.e 6 ^^^ rotateRight s.e 11 ^^^ rotateRight s.e 25)
    + ((s.e &&& s.f) ^^^ ((~~~s.e) &&& s.g)) + k + w
  let u := (rotateRight s.a 2 ^^^ rotateRight s.a 13 ^^^ rotateRight s.a 22)
    + ((s.a &&& s.b) ^^^ (s.a &&& s.c) ^^^ (s.b &&& s.c))
  ⟨t + u, s.a, s.b, s.c, s.d + t, s.e, s.f, s.g⟩

/-- The schedule word that follows sixteen words `first :: rest`. -/
def nextWord (first : UInt32) (rest : List UInt32) : UInt32 :=
  let x := rest.getD 13 0
  let y := rest.getD 0 0
  (rotateRight x 17 ^^^ rotateRight x 19 ^^^ (x >>> 10)) + rest.getD 8 0
    + (rotateRight y 7 ^^^ rotateRight y 18 ^^^ (y >>> 3)) + first

/-- One round a constant, over a window of sixteen schedule words that moves along. -/
def rounds : List UInt32 → List UInt32 → Chaining → Chaining
  | k :: ks, w :: window, s => rounds ks (window ++ [nextWord w window]) (round s k w)
  | _, _, s => s

/-- Big-endian words; a rest of fewer than four bytes is not a word. -/
def words : Bytes → List UInt32
  | a :: b :: c :: d :: rest =>
    ((a.toUInt32 <<< 24) ||| (b.toUInt32 <<< 16) ||| (c.toUInt32 <<< 8) ||| d.toUInt32) :: words rest
  | _ => []

def compress (s : Chaining) (block : Bytes) : Chaining :=
  let t := rounds roundConstants (words block) s
  ⟨s.a + t.a, s.b + t.b, s.c + t.c, s.d + t.d, s.e + t.e, s.f + t.f, s.g + t.g, s.h + t.h⟩

def wordBytes (w : UInt32) : Bytes :=
  [(w >>> 24).toUInt8, (w >>> 16).toUInt8, (w >>> 8).toUInt8, w.toUInt8]

def Chaining.toBytes (s : Chaining) : Bytes :=
  [s.a, s.b, s.c, s.d, s.e, s.f, s.g, s.h].flatMap wordBytes

end Sha256

/-- A digest under way: the chaining value of the whole blocks, the bytes of the block that is not
full yet in reverse, and the number of bytes so far. -/
structure Sha256 where
  chaining : Sha256.Chaining := Sha256.initial
  partialBlock : Bytes := []
  length : Nat := 0
deriving DecidableEq, Repr

namespace Sha256

def push (s : Sha256) (b : UInt8) : Sha256 :=
  if (s.length + 1) % 64 = 0 then
    ⟨compress s.chaining (b :: s.partialBlock).reverse, [], s.length + 1⟩
  else
    ⟨s.chaining, b :: s.partialBlock, s.length + 1⟩

def update (s : Sha256) (bytes : Bytes) : Sha256 := bytes.foldl push s

/-- A one bit, zeros up to eight bytes short of a whole block, and the length in bits. -/
def padding (length : Nat) : Bytes :=
  128 :: List.replicate ((119 - length % 64) % 64) 0
    ++ (wordBytes (8 * length / 4294967296).toUInt32 ++ wordBytes (8 * length).toUInt32)

/-- The thirty-two bytes of the digest. -/
def finish (s : Sha256) : Bytes := (s.update (padding s.length)).chaining.toBytes

theorem update_append (s : Sha256) (a b : Bytes) : s.update (a ++ b) = (s.update a).update b :=
  List.foldl_append

/-- The standard bounds a message to fewer than `2 ^ 64` bits, which are `2 ^ 61` bytes. -/
def maxLength : Nat := 2305843009213693952

end Sha256

def sha256 (message : Bytes) : Bytes := (({} : Sha256).update message).finish

/-- The digest in lower-case hexadecimal, as it stands in the texts that are signed. -/
def sha256Hex (message : Bytes) : Bytes := Hex.encode (sha256 message)

end SigV4
