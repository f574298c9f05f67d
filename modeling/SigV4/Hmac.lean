import SigV4.Sha256

/-!
# HMAC-SHA-256

RFC 2104 with blocks of sixty-four bytes. A key is brought to the length of a block once (`blockKey`), by its
hash if it is longer and by zeros otherwise, and `sign` hashes the message behind it twice.
-/

namespace SigV4.Hmac

/-- A key longer than a block is replaced by its digest; zeros fill the block. -/
def blockKey (key : Bytes) : Bytes :=
  let short := if key.length > 64 then sha256 key else key
  short ++ List.replicate (64 - short.length) 0

def sign (key message : Bytes) : Bytes :=
  let block := blockKey key
  sha256 (block.map (· ^^^ 0x5c) ++ sha256 (block.map (· ^^^ 0x36) ++ message))

end SigV4.Hmac
