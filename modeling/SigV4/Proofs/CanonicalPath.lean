import SigV4.Canonical.Path
import SigV4.Proofs.Cutting
import SigV4.Proofs.Encodings

/-!
# Canonical paths and percent encoding

A server normalises the path that it received, which is percent-encoded, while a client encodes the
path that it normalised. The two agree since encoding works segment by segment:

* **`split_encodePath`**: the segments of an encoded path are the encoded segments.
* **`enterSegment_encodePath`**: a segment is a dot segment, or empty, exactly if its encoding is.
* **`endsAsDirectory_encodePath`**: a path names a directory by its end exactly if its encoding does.

`normalizePath_encodePath` puts the three together.
-/

namespace SigV4.Canonical

open Bytes Percent

/-! ## Segments of encoded paths -/

/-- The slashes of a path stay where they are, and what is between them is encoded on its own. -/
theorem encodePath_join (segments : List Bytes) :
    encodePath (join [47] segments) = join [47] (segments.map encodePath) := by
  induction segments with
  | nil => rfl
  | cons segment segments ih =>
    cases segments with
    | nil => simp only [join_singleton, List.map_cons, List.map_nil]
    | cons next segments =>
      simp only [List.map_cons] at ih ⊢
      rw [join_cons_cons, join_cons_cons, encodePath_append, encodePath_append, ih]
      rfl

/-- The segments of an encoded path are the encoded segments. A path is the join of its segments, and no
slash comes in by encoding one of them. -/
theorem split_encodePath (path : Bytes) :
    split 47 (encodePath path) = (split 47 path).map encodePath := by
  have hjoin : encodePath path = join [47] ((split 47 path).map encodePath) := by
    rw [← encodePath_join, join_split]
  rw [hjoin]
  -- A segment has no slash, and its encoding has none either.
  refine split_join (by simp [split_ne_nil]) fun part hpart => ?_
  obtain ⟨segment, hsegment, rfl⟩ := List.mem_map.mp hpart
  rw [encodePath_eq_encode (not_mem_of_mem_split hsegment)]
  exact not_mem_encode (by decide) (by decide) segment

/-- Dots are not encoded, and no other text is encoded as dots. So a dot segment can be told before and
after. -/
theorem encodePath_eq_iff {segment dots : Bytes} (hdots : encodePath dots = dots) :
    encodePath segment = dots ↔ segment = dots := by
  constructor
  · intro h
    exact encodePath_injective (h.trans hdots.symm)
  · intro h
    rw [h, hdots]

/-- A segment does to the encoded stack what it does to the stack: whether it is a parent, a dot or empty is
not changed by encoding. -/
theorem enterSegment_encodePath (entered : List Bytes) (segment : Bytes) :
    enterSegment (entered.map encodePath) (encodePath segment)
      = (enterSegment entered segment).map encodePath := by
  have hparent : (encodePath segment = ascii "..") ↔ segment = ascii ".." :=
    encodePath_eq_iff (by decide)
  have hsame : (encodePath segment = ascii ".") ↔ segment = ascii "." :=
    encodePath_eq_iff (by decide)
  have hempty : (encodePath segment).isEmpty = segment.isEmpty := by
    rw [Bool.eq_iff_iff, List.isEmpty_iff, List.isEmpty_iff, encodePath_eq_nil_iff]
  unfold enterSegment
  simp only [hparent, hsame, hempty]
  split
  · exact List.map_tail.symm
  · split
    · rfl
    · rfl

/-- So the same segments remain, encoded. -/
theorem resolveSegments_encodePath (segments : List Bytes) :
    resolveSegments (segments.map encodePath) = (resolveSegments segments).map encodePath := by
  unfold resolveSegments
  rw [List.foldl_map, List.map_reverse]
  congr 1
  -- The step is the one above, for any stack that has been reached.
  have hfold (entered : List Bytes) :
      segments.foldl (fun entered segment => enterSegment entered (encodePath segment))
        (entered.map encodePath)
      = (segments.foldl enterSegment entered).map encodePath :=
    List.foldl_hom (List.map encodePath) enterSegment_encodePath
  exact hfold []

/-! ## The end of a path

A path ends in a slash and `last` exactly if `last` is its last segment and not its only one. -/

/-- A path ends in a slash and a text without slashes exactly if that text is its last segment and not its
only one. -/
theorem slash_suffix_iff {last path : Bytes} (hlast : 47 ∉ last) :
    47 :: last <:+ path ↔ ∃ init, init ≠ [] ∧ split 47 path = init ++ [last] := by
  constructor
  · rintro ⟨front, rfl⟩
    -- `front` may be empty, but even then it is split into one segment.
    refine ⟨split 47 front, split_ne_nil 47 front, ?_⟩
    rw [split_append_cons, split_eq_singleton hlast]
  · rintro ⟨init, hinit, hsplit⟩
    refine ⟨join [47] init, ?_⟩
    rw [← join_split 47 path, hsplit, join_concat [47] hinit, List.append_assoc]
    rfl

/-- Such an end can be told from the encoded path, provided that it is written with letters that are not
encoded. -/
theorem slash_suffix_encodePath_iff {last path : Bytes} (hlast : 47 ∉ last)
    (hplain : encodePath last = last) : 47 :: last <:+ encodePath path ↔ 47 :: last <:+ path := by
  rw [slash_suffix_iff hlast, slash_suffix_iff hlast, split_encodePath]
  constructor
  · rintro ⟨init, hinit, hmap⟩
    -- The segments of the encoded path are the encoded ones, so the last one is the encoding of the last.
    obtain ⟨front, ends, hsplit, rfl, hends⟩ := List.map_eq_append_iff.mp hmap
    obtain ⟨segment, rfl, hsegment⟩ := List.map_eq_singleton_iff.mp hends
    refine ⟨front, by simpa using hinit, ?_⟩
    rw [hsplit, (encodePath_eq_iff hplain).mp hsegment]
  · rintro ⟨init, hinit, hsplit⟩
    exact ⟨init.map encodePath, by simpa using hinit, by simp [hsplit, hplain]⟩

/-- A path names a directory by its end exactly if its encoding does. -/
theorem endsAsDirectory_encodePath (path : Bytes) :
    endsAsDirectory (encodePath path) = endsAsDirectory path := by
  have hends (last : Bytes) (hlast : 47 ∉ last) (hplain : encodePath last = last) :
      (47 :: last).isSuffixOf (encodePath path) = (47 :: last).isSuffixOf path := by
    rw [Bool.eq_iff_iff, List.isSuffixOf_iff_suffix, List.isSuffixOf_iff_suffix]
    exact slash_suffix_encodePath_iff hlast hplain
  -- A directory ends in an empty segment or in one of the two dot segments.
  have hslash := hends [] (by decide) (by decide)
  have hsame := hends (ascii ".") (by decide) (by decide)
  have hparent := hends (ascii "..") (by decide) (by decide)
  unfold endsAsDirectory
  rw [show ascii "/" = [47] from rfl, show ascii "/." = 47 :: ascii "." from rfl,
    show ascii "/.." = 47 :: ascii ".." from rfl]
  simp only [List.any_cons, List.any_nil, hslash, hsame, hparent]

/-- **Encoding and normalising commute.** A client normalises and then encodes, a server gets the encoded
path and normalises that, and both come to the same text. -/
theorem normalizePath_encodePath (path : Bytes) :
    normalizePath (encodePath path) = encodePath (normalizePath path) := by
  have hempty (segments : List Bytes) :
      (segments.map encodePath).isEmpty = segments.isEmpty := List.isEmpty_map
  unfold normalizePath
  simp only [split_encodePath, resolveSegments_encodePath, endsAsDirectory_encodePath, hempty,
    encodePath_append]
  rw [show ascii "/" = [47] from rfl, encodePath_join]
  split
  · rfl
  · rfl

end SigV4.Canonical
