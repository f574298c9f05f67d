import SigV4.Chunked.Encoding
import Mathlib.Algebra.GroupWithZero.Nat

/-!
# Segments of an encoding

An encoding is a list of segments, each signed from the one before. A stream produces them one
after the other and only as far as it is read, so a number of bytes determines which segments were
begun:

* **`Segment.begun`**: the segments that start among the first `n` bytes.
* **`Segment.begun_add`**: what `m` further bytes begin, depends on how much is left of the segments
  begun before.
* **`ChunkContext.signature_of_mem_segmentsFrom`**: where chunks are not signed every segment keeps
  the signature that it was given.
-/

namespace SigV4

/-! ## Slices -/

namespace Chunked

@[simp] theorem slices_nil (size : Nat) : slices size [] = [] := by
  rw [slices]
  simp

theorem slices_of_ne_nil {size : Nat} (hsize : size ≠ 0) {payload : Bytes} (hpayload : payload ≠ []) :
    slices size payload = payload.take size :: slices size (payload.drop size) := by
  rw [slices, if_neg (by simp [hsize, hpayload])]

theorem take_ne_nil {size : Nat} (hsize : size ≠ 0) {payload : Bytes} (hpayload : payload ≠ []) :
    payload.take size ≠ [] := by
  intro h
  rcases List.take_eq_nil_iff.mp h with h | h
  · exact hsize h
  · exact hpayload h

end Chunked

/-! ## Reading a text in pieces

A text that is read in pieces of given lengths, and where it may end or fail. -/

/-- The pieces of a text that readings of these lengths return. -/
def Bytes.pieces : List Nat → Bytes → List Bytes
  | [], _ => []
  | n :: lengths, text => text.take n :: pieces lengths (text.drop n)

/-- Pieces put together are the front of the text, as long as they are altogether. -/
theorem Bytes.flatten_pieces (lengths : List Nat) (text : Bytes) :
    (pieces lengths text).flatten = text.take lengths.sum := by
  induction lengths generalizing text with
  | nil => simp [pieces]
  | cons n lengths ih => rw [pieces, List.flatten_cons, ih, List.sum_cons, List.take_add]

/-- Pieces with nothing behind them are the whole text. -/
theorem Bytes.flatten_pieces_of_end {lengths : List Nat} {text : Bytes} {n : Nat} (hn : 0 < n)
    (hend : (text.drop lengths.sum).take n = []) : (pieces lengths text).flatten = text := by
  have hall : text.length ≤ lengths.sum := by
    rcases List.take_eq_nil_iff.mp hend with h | h
    · omega
    · exact List.drop_eq_nil_iff.mp h
  rw [flatten_pieces, List.take_of_length_le hall]

theorem Bytes.pieces_append (lengths more : List Nat) (text : Bytes) :
    pieces (lengths ++ more) text = pieces lengths text ++ pieces more (text.drop lengths.sum) := by
  induction lengths generalizing text with
  | nil => rfl
  | cons n lengths ih =>
    rw [List.cons_append, pieces, pieces, ih, List.sum_cons, ← List.drop_drop]
    rfl

namespace Bytes

/-- Taking from the front first, and the rest of what is wanted from what follows. -/
theorem take_append_rest (n : Nat) (front rest : Bytes) :
    front.take n ++ (front.drop n ++ rest).take (n - (front.take n).length)
      = (front ++ rest).take n := by
  rw [List.length_take, List.take_append, List.take_append]
  rcases Nat.le_total n front.length with h | h
  · simp [Nat.min_eq_left h, Nat.sub_eq_zero_of_le h]
  · simp [Nat.min_eq_right h, List.drop_of_length_le h]

/-- Leaving out of the front first, and the rest of what is left out of what follows. -/
theorem drop_append_rest (n : Nat) (front rest : Bytes) :
    (front.drop n ++ rest).drop (n - (front.take n).length) = (front ++ rest).drop n := by
  rw [List.length_take, List.drop_append, List.drop_append]
  rcases Nat.le_total n front.length with h | h
  · simp [Nat.min_eq_left h, Nat.sub_eq_zero_of_le h]
  · simp [Nat.min_eq_right h, List.drop_of_length_le h]

/-- The first `n` bytes of a text. Where it ends before them that is all of it, or the failure that stands
behind it. -/
def pieceBefore (stop : Outcome Unit) (n : Nat) (text : Bytes) : Outcome Bytes :=
  if n ≤ text.length then .ok (text.take n) else stop.map fun () => text

/-- What readings of these lengths return. -/
def piecesBefore (stop : Outcome Unit) : List Nat → Bytes → List (Outcome Bytes)
  | [], _ => []
  | n :: lengths, text => pieceBefore stop n text :: piecesBefore stop lengths (text.drop n)

/-- Where nothing stands behind the text, it is a piece like any other. -/
theorem pieceBefore_ok (n : Nat) (text : Bytes) : pieceBefore (.ok ()) n text = .ok (text.take n) := by
  unfold pieceBefore
  split
  next => rfl
  next h => rw [List.take_of_length_le (Nat.le_of_not_le h)]; rfl

theorem pieceBefore_zero (stop : Outcome Unit) (text : Bytes) : pieceBefore stop 0 text = .ok [] :=
  if_pos (Nat.zero_le _)

/-- Reading some bytes in two steps, those of the front first. The failure behind the text is met by the
second step, if at all. -/
theorem pieceBefore_cons_append (stop : Outcome Unit) (n : Nat) (b : UInt8) (front rest : Bytes) :
    pieceBefore stop (n + 1) (b :: front ++ rest)
      = (pieceBefore stop (n - (front.take n).length) (front.drop n ++ rest)).map
        (b :: front.take n ++ ·) := by
  -- Taking one byte and then up to `n` more of the front leaves as many to be read as the lengths say.
  have hfits : n + 1 ≤ (b :: front ++ rest).length
      ↔ n - (front.take n).length ≤ (front.drop n ++ rest).length := by
    simp only [List.cons_append, List.length_cons, List.length_append, List.length_take,
      List.length_drop]
    omega
  unfold pieceBefore
  by_cases h : n + 1 ≤ (b :: front ++ rest).length
  · rw [if_pos h, if_pos (hfits.mp h), List.cons_append, List.take_succ_cons, ← take_append_rest]
    rfl
  · rw [if_neg h, if_neg (hfits.not.mp h)]
    cases stop with
    | error failure => rfl
    | ok done =>
      show Except.ok (b :: front ++ rest) = .ok (b :: front.take n ++ (front.drop n ++ rest))
      rw [List.cons_append, List.cons_append, ← List.append_assoc, List.take_append_drop]

end Bytes

/-- The segments that start among the first `n` bytes of their text. -/
def Segment.begun : Nat → List Segment → List Segment
  | _, [] => []
  | n, segment :: rest => if n = 0 then [] else segment :: begun (n - segment.text.length) rest

namespace Segment

/-- No byte begins no segment. -/
@[simp] theorem begun_zero (segments : List Segment) : begun 0 segments = [] := by
  cases segments <;> rfl

@[simp] theorem begun_nil (n : Nat) : begun n [] = [] := rfl

/-- A byte begins the first segment, and what goes beyond it begins the others. -/
theorem begun_cons {n : Nat} (hn : n ≠ 0) (segment : Segment) (rest : List Segment) :
    begun n (segment :: rest) = segment :: begun (n - segment.text.length) rest := by
  rw [begun, if_neg hn]

end Segment

def segmentTexts (segments : List Segment) : Bytes := segments.flatMap (·.text)

@[simp] theorem segmentTexts_nil : segmentTexts [] = [] := rfl

@[simp] theorem segmentTexts_cons (segment : Segment) (rest : List Segment) :
    segmentTexts (segment :: rest) = segment.text ++ segmentTexts rest := rfl

@[simp] theorem segmentTexts_append (a b : List Segment) :
    segmentTexts (a ++ b) = segmentTexts a ++ segmentTexts b := List.flatMap_append

/-- The signature of the last of the segments, `seed` if there is none. -/
def lastSignature (seed : Bytes) (segments : List Segment) : Bytes :=
  (segments.map (·.signature)).getLastD seed

@[simp] theorem lastSignature_nil (seed : Bytes) : lastSignature seed [] = seed := rfl

/-- The last signature does not depend on what was in front of a segment. -/
@[simp] theorem lastSignature_cons (seed : Bytes) (segment : Segment) (rest : List Segment) :
    lastSignature seed (segment :: rest) = lastSignature segment.signature rest := by
  rw [lastSignature, List.map_cons, List.getLastD_cons]
  rfl

/-- The last signature of segments behind others is signed on from theirs. -/
theorem lastSignature_append (seed : Bytes) (a b : List Segment) :
    lastSignature seed (a ++ b) = lastSignature (lastSignature seed a) b := by
  induction a generalizing seed with
  | nil => rfl
  | cons segment a ih => simp only [List.cons_append, lastSignature_cons, ih]

namespace Segment

/-- The segments that were begun reach to the `n`-th byte, if there are so many. -/
theorem le_length_begun {n : Nat} {segments rest : List Segment}
    (h : segments = begun n segments ++ rest) :
    n ≤ (segmentTexts (begun n segments)).length ∨ rest = [] := by
  induction segments generalizing n with
  | nil => exact .inr (by simpa using h.symm)
  | cons segment segments ih =>
    by_cases hn : n = 0
    · exact .inl (by simp [hn])
    · rw [begun_cons hn, List.cons_append, List.cons.injEq] at h
      rw [begun_cons hn, segmentTexts_cons, List.length_append]
      rcases ih h.2 with hle | hrest
      · exact .inl (by omega)
      · exact .inr hrest

/-- What is left of the segments that were begun is the end of their text, also where it was read beyond
its end. -/
theorem drop_begun_append {n : Nat} {segments rest : List Segment} (h : segments = begun n segments ++ rest)
    {others : List Segment} (hothers : rest = [] → others = []) :
    (segmentTexts (begun n segments)).drop n ++ segmentTexts others
      = (segmentTexts (begun n segments ++ others)).drop n := by
  rw [segmentTexts_append, List.drop_append]
  rcases le_length_begun h with hle | hnil
  · rw [Nat.sub_eq_zero_of_le hle, List.drop_zero]
  · simp [hothers hnil]

/-- What is begun by `n` further bytes: of the segments begun before, some bytes may be left. These are read
first, and only the bytes beyond them begin further segments. -/
theorem begun_add {n : Nat} {segments rest : List Segment} (h : segments = begun n segments ++ rest)
    (m : Nat) :
    begun (n + m) segments
      = begun n segments ++ begun (m - ((segmentTexts (begun n segments)).length - n)) rest := by
  induction segments generalizing n with
  | nil =>
    have hrest : rest = [] := by simpa using h.symm
    simp [hrest]
  | cons segment segments ih =>
    by_cases hn : n = 0
    · have hrest : rest = segment :: segments := by simpa [hn] using h.symm
      simp [hn, hrest]
    · rw [begun_cons hn, List.cons_append, List.cons.injEq] at h
      rw [begun_cons hn, begun_cons (by omega), segmentTexts_cons, List.length_append,
        List.cons_append]
      congr 1
      -- Either the first segment was left behind, or the `n` bytes end in it and begin no other.
      by_cases hlong : segment.text.length ≤ n
      · have hsum : n + m - segment.text.length = n - segment.text.length + m := by omega
        rw [hsum, ih h.2]
        congr 2
        omega
      · have hzero : n - segment.text.length = 0 := by omega
        have hrest : rest = segments := by simpa [hzero] using h.2.symm
        rw [hzero, hrest]
        simp only [begun_zero, segmentTexts_nil, List.length_nil, List.nil_append]
        congr 1
        omega

end Segment

/-! ## The segments of a payload

The segments are computed from the whole payload at once, which is what the stream is compared with.
-/

namespace ChunkContext

variable {c : ChunkContext} {values : List (Bytes × Bytes)}

/-- There is always a segment: the chunk without data ends every payload. -/
theorem segmentsFrom_ne_nil (c : ChunkContext) (values : List (Bytes × Bytes)) (previous : Bytes)
    (slices : List Bytes) : c.segmentsFrom values previous slices ≠ [] := by
  cases slices with
  | nil =>
    rw [segmentsFrom]
    split <;> simp
  | cons data rest => simp [segmentsFrom]

/-- A chunk has a text, be it without data. -/
theorem chunkSegment_text_ne_nil (c : ChunkContext) (previous data : Bytes) :
    (c.chunkSegment previous data).text ≠ [] := by
  simp [chunkSegment, Chunked.frame, crlf]

/-- So have the trailers, be there none. -/
theorem trailerSegment_text_ne_nil (c : ChunkContext) (previous : Bytes)
    (values : List (Bytes × Bytes)) : (c.trailerSegment previous values).text ≠ [] := by
  simp [trailerSegment, crlf]

/-- Where chunks are not signed the seed stays in the place of every signature. -/
theorem signature_of_mem_segmentsFrom (hsigned : c.signed = false) {previous : Bytes}
    {slices : List Bytes} {segment : Segment} (h : segment ∈ c.segmentsFrom values previous slices) :
    segment.signature = previous := by
  have hchunk (data : Bytes) : (c.chunkSegment previous data).signature = previous := by
    simp [chunkSegment, signChunk, hsigned]
  have htrailer : (c.trailerSegment previous values).signature = previous := by
    simp [trailerSegment, signTrailers, hsigned]
  induction slices with
  | nil =>
    rw [segmentsFrom] at h
    split at h
    · rw [List.mem_singleton.mp h, hchunk]
    · simp only [hchunk, List.mem_cons, List.not_mem_nil, or_false] at h
      rcases h with rfl | rfl
      · exact hchunk []
      · exact htrailer
  | cons data slices ih =>
    rw [segmentsFrom] at h
    simp only [hchunk, List.mem_cons] at h
    rcases h with rfl | h
    · exact hchunk data
    · exact ih h

end ChunkContext

/-- Segments that all keep one signature leave it as the last. -/
theorem lastSignature_of_forall {seed : Bytes} {segments : List Segment}
    (h : ∀ segment ∈ segments, segment.signature = seed) : lastSignature seed segments = seed := by
  induction segments with
  | nil => rfl
  | cons segment rest ih =>
    rw [lastSignature_cons, h segment List.mem_cons_self]
    exact ih fun other hother => h other (List.mem_cons_of_mem segment hother)

end SigV4
