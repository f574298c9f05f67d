import SigV4.Bytes

/-!
# Letter case and blanks

Field names compare without regard to the case of ASCII letters, and field values are signed with
their blanks collapsed. Bytes above 127 are never touched.
-/

namespace SigV4

/-- Only `A` to `Z` have another case. -/
def lowerByte (b : UInt8) : UInt8 := if 65 ≤ b ∧ b ≤ 90 then b + 32 else b

def toLower (text : Bytes) : Bytes := text.map lowerByte

/-- Case-insensitive order of names in one walk over both: the first pair of letters that differ
decides, and a name precedes its proper extensions. -/
def precedes : Bytes → Bytes → Bool
  | _, [] => false
  | [], _ :: _ => true
  | a :: as, b :: bs =>
    if lowerByte a = lowerByte b then precedes as bs else decide (lowerByte a < lowerByte b)

/-- Space and horizontal tab. -/
def isBlank (b : UInt8) : Bool := b == 32 || b == 9

/-- Drops blanks at both ends and turns every inner run of blanks into one space. -/
def collapseBlanks (text : Bytes) : Bytes :=
  go [] false text
where
  /-- The output stands reversed in `out`; `gap` says that a blank was passed since its last byte. -/
  go (out : Bytes) (gap : Bool) : Bytes → Bytes
    | [] => out.reverse
    | b :: rest =>
      if isBlank b then go out (!out.isEmpty) rest
      else go (b :: if gap then 32 :: out else out) false rest

/-- The maximal runs of bytes other than blanks. -/
def words (text : Bytes) : List Bytes := (Bytes.splitWhere isBlank text).filter (!·.isEmpty)

/-! ### The order of names

`precedes` is the lexicographic order of the lower-cased names (`precedes_iff`), so collections
sorted by it can be reasoned about through `<` on byte strings. -/

theorem precedes_iff {a b : Bytes} : precedes a b = true ↔ toLower a < toLower b := by
  induction a generalizing b with
  | nil => cases b <;> simp [precedes, toLower]
  | cons x xs ih =>
    cases b with
    | nil => simp [precedes, toLower]
    | cons y ys =>
      simp only [precedes, toLower, List.map_cons, List.cons_lt_cons_iff]
      split
      next h => simpa [h, UInt8.lt_irrefl, toLower] using ih
      next h => simp [h]

end SigV4
