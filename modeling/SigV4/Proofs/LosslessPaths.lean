import SigV4.Proofs.Target

/-!
# Percent encoding loses nothing

What is written in percent encoding can be read by rules that know nothing of the encoder
(`Percent.Written`, `Percent.decode`), and the text that was encoded comes out again. An encoded path
has its slashes where the path has them (`encodePath_eq_join`, `count_slash_encodePath`). As encoding
is injective, once or twice, a canonical path stands for one path only, up to normalisation and the
empty path (`canonicalPath_eq_iff`).
-/

namespace SigV4

namespace Percent

/-- A text of unreserved characters and of percent signs with two upper-case digits each. -/
inductive Written : Bytes → Prop where
  | nil : Written []
  | unreserved (b : UInt8) (rest : Bytes) (hb : isUnreserved b = true) (hrest : Written rest) :
      Written (b :: rest)
  | octet (high low : UInt8) (rest : Bytes) (hhigh : (Hex.upperValue? high).isSome)
      (hlow : (Hex.upperValue? low).isSome) (hrest : Written rest) :
      Written (37 :: high :: low :: rest)

/-- A byte is written as itself or as an octet, in front of whatever is written. -/
theorem written_encodeByte_append (b : UInt8) {rest : Bytes} (hrest : Written rest) :
    Written (encodeByte b ++ rest) := by
  unfold encodeByte
  split
  next hb => exact .unreserved b rest hb hrest
  next =>
    have hhigh := Hex.upperValue?_upperDigit (Hex.high_lt b)
    have hlow := Hex.upperValue?_upperDigit (Hex.low_lt b)
    exact .octet _ _ rest (by rw [hhigh]; rfl) (by rw [hlow]; rfl) hrest

/-- What the encoder writes is written by the rules, byte by byte. -/
theorem written_encode (text : Bytes) : Written (encode text) := by
  induction text with
  | nil => exact .nil
  | cons b text ih => exact written_encodeByte_append b ih

/-- The slashes of a path, and no others, are slashes of its encoding. The induction is on the path. -/
theorem count_slash_encodePath (path : Bytes) : (encodePath path).count 47 = path.count 47 := by
  induction path with
  | nil => rfl
  | cons b path ih =>
    rw [encodePath, List.flatMap_cons, List.count_append, ← encodePath, ih]
    -- A slash stays one slash; of any other byte an encoding has none.
    split
    next hb =>
      obtain rfl : b = 47 := eq_of_beq hb
      rw [List.count_cons_self, List.count_cons_self, List.count_nil]
      omega
    next hb =>
      have hnone : 47 ∉ encodeByte b := by
        intro hmem
        rcases of_mem_encodeByte hmem with h | h
        · exact absurd h (by decide)
        · exact absurd h (by decide)
      rw [List.count_eq_zero_of_not_mem hnone, List.count_cons_of_ne (by simpa using hb), Nat.zero_add]

end Percent

namespace Canonical

open Bytes Percent

/-- A path is encoded segment by segment: cut at its slashes, encoded in parts and joined again. -/
theorem encodePath_eq_join (path : Bytes) :
    encodePath path = join (ascii "/") ((split 47 path).map encode) := by
  have hsegments : (split 47 path).map encodePath = (split 47 path).map encode :=
    List.map_congr_left fun segment hsegment => encodePath_eq_encode (not_mem_of_mem_split hsegment)
  calc encodePath path
      = encodePath (join [47] (split 47 path)) := by rw [join_split]
    _ = join [47] ((split 47 path).map encodePath) := encodePath_join _
    _ = join [47] ((split 47 path).map encode) := by rw [hsegments]

/-- Two paths have one canonical path exactly if they are written alike once they are normalised. Encoding
is injective, and so is encoding twice. -/
theorem canonicalPath_eq_iff (path other : Bytes) (normalize doubleEncode : Bool) :
    canonicalPath path normalize doubleEncode = canonicalPath other normalize doubleEncode
      ↔ writtenPath (if normalize then normalizePath path else path)
        = writtenPath (if normalize then normalizePath other else other) := by
  unfold canonicalPath
  dsimp only
  rw [← writtenPath, ← writtenPath]
  constructor
  · intro h
    cases doubleEncode with
    | false => exact encodePath_injective h
    | true => exact encodePath_injective (encodePath_injective h)
  · intro h
    rw [h]

/-- **Percent encoding is lossless.** Any text is read back from its encoding, which is written in
unreserved characters and octets; any path is read back too, and is encoded between its slashes. So a
canonical path tells apart what is not the same path after normalising, where the empty path is the
root. -/
theorem encoding_is_lossless (text path other : Bytes) (normalize doubleEncode : Bool) :
    decode (encode text) = some text
      ∧ Written (encode text)
      ∧ decode (encodePath path) = some path
      ∧ encodePath path = join (ascii "/") ((split 47 path).map encode)
      ∧ (encodePath path).count 47 = path.count 47
      ∧ (canonicalPath path normalize doubleEncode = canonicalPath other normalize doubleEncode
        ↔ writtenPath (if normalize then normalizePath path else path)
          = writtenPath (if normalize then normalizePath other else other)) := by
  refine ⟨?_, ?_, ?_, ?_, ?_, ?_⟩
  · exact decode_encode text
  · exact written_encode text
  · exact decode_encodePath path
  · exact encodePath_eq_join path
  · exact count_slash_encodePath path
  · exact canonicalPath_eq_iff path other normalize doubleEncode

end Canonical

end SigV4
