import SigV4.Canonical.DotSegments
import SigV4.Proofs.NormalPaths

/-!
# Dot segments

The algorithm of RFC 3986 rewrites the text of a path from the front, while `normalizePath` enters
one segment after the other on a stack. The two are compared step by step, the output buffer being
the stack (`buffer`):

* **`removeDotSegmentsFrom_step`**, **`removeDotSegmentsFrom_last`**: with a slash in front of the
  input, a step of the algorithm enters the segment behind that slash.
* **`removeDotSegmentsFrom_slashed`**: so the whole algorithm enters all segments. The induction is
  on the segments, and repeated slashes, which the algorithm keeps, are collapsed on the way.
-/

namespace SigV4.Canonical

open Bytes

/-! ## Repeated slashes -/

/-- Every run of slashes as one slash. -/
def collapseSlashes : Bytes → Bytes
  | [] => []
  | b :: rest =>
    if b = 47 ∧ rest.head? = some 47 then collapseSlashes rest else b :: collapseSlashes rest

/-- What has no slash stays as it is. The induction is on the text in front. -/
theorem collapseSlashes_append {front : Bytes} (h : 47 ∉ front) (rest : Bytes) :
    collapseSlashes (front ++ rest) = front ++ collapseSlashes rest := by
  induction front with
  | nil => rfl
  | cons b front ih =>
    obtain ⟨hb, hfront⟩ := List.ne_and_not_mem_of_not_mem_cons h
    rw [List.cons_append, collapseSlashes, if_neg fun hslash => hb hslash.1.symm, ih hfront]
    rfl

theorem collapseSlashes_slash_slash (rest : Bytes) :
    collapseSlashes (47 :: 47 :: rest) = collapseSlashes (47 :: rest) := by
  rw [collapseSlashes, if_pos ⟨rfl, rfl⟩]

/-- A segment that is not empty stays, and so does the slash in front of it. -/
theorem collapseSlashes_segment {segment : Bytes} (hslash : 47 ∉ segment) (hempty : segment ≠ [])
    (rest : Bytes) :
    collapseSlashes (47 :: (segment ++ rest)) = 47 :: (segment ++ collapseSlashes rest) := by
  obtain ⟨b, segment', rfl⟩ := List.exists_cons_of_ne_nil hempty
  have hb : b ≠ 47 := (List.ne_and_not_mem_of_not_mem_cons hslash).1.symm
  rw [collapseSlashes, if_neg fun h => hb (Option.some.inj h.2), collapseSlashes_append hslash]

/-- Some slash stays of every run, so a text with a slash in front still has one. -/
theorem exists_collapseSlashes_slash (rest : Bytes) :
    ∃ rest', collapseSlashes (47 :: rest) = 47 :: rest' := by
  induction rest with
  | nil => exact ⟨[], rfl⟩
  | cons b rest ih =>
    rw [collapseSlashes]
    split
    next h =>
      obtain rfl : b = 47 := Option.some.inj h.2
      exact ih
    next => exact ⟨_, rfl⟩

/-! ## The steps of the algorithm

The algorithm moves segments from its input to its output. There is one lemma for each kind of
segment. -/

/-- With the input used up, the output buffer is the result. -/
theorem removeDotSegmentsFrom_nil (output : List Bytes) :
    removeDotSegmentsFrom output [] = output.reverse.flatten := by
  rw [removeDotSegmentsFrom]
  rfl

/-- The steps that are left when the input starts with a slash. The others are for paths that do not start
at the root. -/
theorem removeDotSegmentsFrom_slash (output : List Bytes) (rest : Bytes) :
    removeDotSegmentsFrom output (47 :: rest)
      = if (ascii "./").isPrefixOf rest then removeDotSegmentsFrom output (rest.drop 1)
        else if rest = ascii "." then removeDotSegmentsFrom output [47]
        else if (ascii "../").isPrefixOf rest then removeDotSegmentsFrom output.tail (rest.drop 2)
        else if rest = ascii ".." then removeDotSegmentsFrom output.tail [47]
        else removeDotSegmentsFrom ((47 :: rest.takeWhile (· != 47)) :: output)
          (rest.dropWhile (· != 47)) := by
  rw [removeDotSegmentsFrom]
  simp [ascii, Bytes.ofChars]

/-- A segment that is no dot segment goes to the output, up to the next slash or the end. The rest starts
with a slash or is empty, so no dots can be found across the end of the segment. -/
theorem removeDotSegmentsFrom_segment {segment rest : Bytes} (hslash : 47 ∉ segment)
    (hdots : segment ≠ ascii "." ∧ segment ≠ ascii "..")
    (hrest : rest = [] ∨ ∃ rest', rest = 47 :: rest') (output : List Bytes) :
    removeDotSegmentsFrom output (47 :: (segment ++ rest))
      = removeDotSegmentsFrom ((47 :: segment) :: output) rest := by
  -- Only the segment itself can stand in front of the first slash.
  have hstart (dots : Bytes) (hplain : 47 ∉ dots) (hne : segment ≠ dots) :
      (dots ++ [47]).isPrefixOf (segment ++ rest) = false := by
    rw [← Bool.not_eq_true, List.isPrefixOf_iff_prefix]
    rintro ⟨behind, heq⟩
    rw [List.append_assoc] at heq
    rcases hrest with rfl | ⟨rest', rfl⟩
    · apply hslash
      rw [← List.append_nil segment, ← heq]
      simp
    · exact hne (append_cons_inj hplain hslash heq).1.symm
  -- Nor is it all that is left.
  have hwhole (dots : Bytes) (hplain : 47 ∉ dots) (hne : segment ≠ dots) :
      segment ++ rest ≠ dots := by
    rintro rfl
    rcases hrest with rfl | ⟨rest', rfl⟩
    · exact hne (List.append_nil segment).symm
    · exact hplain (by simp)
  have hsame := hstart (ascii ".") (by decide) hdots.1
  have hparent := hstart (ascii "..") (by decide) hdots.2
  have hbytes : ∀ b ∈ segment, (b != 47) = true := fun b hb =>
    bne_iff_ne.mpr fun heq => hslash (heq ▸ hb)
  have hbehind : rest.takeWhile (· != 47) = [] ∧ rest.dropWhile (· != 47) = rest := by
    rcases hrest with rfl | ⟨rest', rfl⟩
    · exact ⟨rfl, rfl⟩
    · exact ⟨rfl, rfl⟩
  rw [removeDotSegmentsFrom_slash, show ascii "./" = ascii "." ++ [47] from rfl,
    show ascii "../" = ascii ".." ++ [47] from rfl, if_neg (Bool.eq_false_iff.mp hsame),
    if_neg (hwhole (ascii ".") (by decide) hdots.1), if_neg (Bool.eq_false_iff.mp hparent),
    if_neg (hwhole (ascii "..") (by decide) hdots.2), List.takeWhile_append_of_pos hbytes,
    List.dropWhile_append_of_pos hbytes, hbehind.1, hbehind.2, List.append_nil]

/-- Behind the last segment nothing is left to do, and the output is the buffer with this segment behind it.
-/
theorem removeDotSegmentsFrom_end {segment : Bytes} (hslash : 47 ∉ segment)
    (hdots : segment ≠ ascii "." ∧ segment ≠ ascii "..") (output : List Bytes) :
    removeDotSegmentsFrom output (47 :: segment) = output.reverse.flatten ++ 47 :: segment := by
  have hsegment := removeDotSegmentsFrom_segment hslash hdots (.inl rfl) output
  rw [List.append_nil] at hsegment
  rw [hsegment, removeDotSegmentsFrom_nil, List.reverse_cons, List.flatten_append,
    List.flatten_singleton]

/-- The output buffer that stands for a stack of segments. -/
def buffer (entered : List Bytes) : List Bytes := entered.map (47 :: ·)

/-- One step of the algorithm enters one segment. There are three kinds of segments: one dot leaves the
stack alone, two dots take its top off, and any other name is put on it. -/
theorem removeDotSegmentsFrom_step {segment : Bytes} (hslash : 47 ∉ segment) (hempty : segment ≠ [])
    (entered : List Bytes) (rest : Bytes) :
    removeDotSegmentsFrom (buffer entered) (47 :: (segment ++ 47 :: rest))
      = removeDotSegmentsFrom (buffer (enterSegment entered segment)) (47 :: rest) := by
  rcases segment_cases segment with rfl | rfl | rfl | hname
  · exact absurd rfl hempty
  · rw [removeDotSegmentsFrom_slash]
    rfl
  · rw [removeDotSegmentsFrom_slash]
    show removeDotSegmentsFrom (buffer entered).tail (47 :: rest) = _
    rw [buffer, ← List.map_tail]
    rfl
  · have hdots := (namesDirectory_eq_false_iff.mp hname).2
    rw [removeDotSegmentsFrom_segment hslash hdots (.inr ⟨rest, rfl⟩), enterSegment_of_name hname]
    rfl

/-- The text of the buffer is that of the stack, each segment behind a slash. -/
theorem flatten_buffer (entered : List Bytes) :
    (buffer entered).reverse.flatten = slashed entered.reverse := by
  rw [buffer, ← List.map_reverse, slashed, List.flatMap_def]

/-- The last segment is entered too, and the slash behind a directory stays: a dot segment at the end leaves
the slash in front of it, which is a step of its own. -/
theorem removeDotSegmentsFrom_last {last : Bytes} (hslash : 47 ∉ last) (entered : List Bytes) :
    removeDotSegmentsFrom (buffer entered) (47 :: last)
      = slashed ((enterSegment entered last).reverse ++ closing last) := by
  have hend (segment : Bytes) (hsegment : 47 ∉ segment)
      (hdots : segment ≠ ascii "." ∧ segment ≠ ascii "..") (entered : List Bytes) :
      removeDotSegmentsFrom (buffer entered) (47 :: segment)
        = slashed (entered.reverse ++ [segment]) := by
    rw [removeDotSegmentsFrom_end hsegment hdots, flatten_buffer, slashed, slashed,
      List.flatMap_append, List.flatMap_singleton]
  -- What a dot segment leaves of the input is the slash in front of it.
  have hroot := hend [] List.not_mem_nil (by decide)
  rcases segment_cases last with rfl | rfl | rfl | hname
  · exact hroot entered
  · rw [removeDotSegmentsFrom_slash]
    exact hroot entered
  · rw [removeDotSegmentsFrom_slash]
    show removeDotSegmentsFrom (buffer entered).tail [47] = _
    rw [buffer, ← List.map_tail]
    exact hroot entered.tail
  · have hdots := (namesDirectory_eq_false_iff.mp hname).2
    rw [hend last hslash hdots, enterSegment_of_name hname, closing, hname,
      if_neg Bool.false_ne_true, List.append_nil, List.reverse_cons]

/-! ## The whole algorithm -/

/-- Collapsing and removing dot segments in the text of segments enters them one after the other. The
induction is on the segments in front of the last, for any stack. -/
theorem removeDotSegmentsFrom_slashed {init : List Bytes} {last : Bytes}
    (hslash : ∀ segment ∈ init ++ [last], 47 ∉ segment) (entered : List Bytes) :
    removeDotSegmentsFrom (buffer entered) (collapseSlashes (slashed (init ++ [last])))
      = slashed (((init ++ [last]).foldl enterSegment entered).reverse ++ closing last) := by
  induction init generalizing entered with
  | nil =>
    have hlast : 47 ∉ last := hslash last List.mem_cons_self
    -- The last segment has nothing behind it to collapse.
    have hcollapse : collapseSlashes (slashed ([] ++ [last])) = 47 :: last := by
      by_cases hempty : last = []
      · rw [hempty]
        rfl
      · show collapseSlashes (47 :: (last ++ [])) = 47 :: last
        rw [collapseSlashes_segment hlast hempty, collapseSlashes, List.append_nil]
    rw [hcollapse, removeDotSegmentsFrom_last hlast]
    rfl
  | cons segment init ih =>
    have hsegment : 47 ∉ segment := hslash segment List.mem_cons_self
    -- What is left is rooted in turn, so the step for one segment applies again.
    have hrest := ih fun other hother => hslash other (List.mem_cons_of_mem segment hother)
    rw [List.cons_append, List.foldl_cons, ← hrest, slashed_cons]
    obtain ⟨text, htext⟩ : ∃ text, slashed (init ++ [last]) = 47 :: text := by
      cases init with
      | nil => exact ⟨_, rfl⟩
      | cons next init => exact ⟨_, rfl⟩
    by_cases hempty : segment = []
    · -- Two slashes meet, and the first of them goes, as the empty segment does.
      rw [hempty, htext, List.nil_append, collapseSlashes_slash_slash, enterSegment_nil]
    · obtain ⟨text', htext'⟩ := exists_collapseSlashes_slash text
      rw [collapseSlashes_segment hsegment hempty, htext, htext',
        removeDotSegmentsFrom_step hsegment hempty]

/-- For a path from the root, the algorithm and `normalizePath` agree, once repeated slashes are collapsed:
both enter the segments of the path on an empty stack. -/
theorem removeDotSegments_collapseSlashes (path : Bytes) :
    removeDotSegments (collapseSlashes (47 :: path)) = normalizePath (47 :: path) := by
  obtain ⟨init, last, hsplit⟩ := exists_split_concat path
  have hslash : ∀ segment ∈ init ++ [last], 47 ∉ segment := fun segment hsegment =>
    not_mem_of_mem_split (hsplit ▸ hsegment)
  have hrooted : split 47 (47 :: path) = ([] :: init) ++ [last] := by
    rw [split_slash, hsplit]
    rfl
  have htext : 47 :: path = slashed (init ++ [last]) := by
    rw [← hsplit, slashed_split]
  rw [normalizePath_eq hrooted, removeDotSegments, htext]
  exact removeDotSegmentsFrom_slashed hslash []

/-- **Normal paths are those of RFC 3986.** A normalised path is in normal form and stays as it is;
it is what removing dot segments leaves of the path from the root in which no slash is repeated; and
to normalise a path in pieces is to normalise it at once. -/
theorem normalizePath_normal_form (path rest : Bytes) :
    IsNormal (normalizePath path)
      ∧ normalizePath (normalizePath path) = normalizePath path
      ∧ normalizePath (47 :: path) = removeDotSegments (collapseSlashes (47 :: path))
      ∧ normalizePath (47 :: path) = normalizePath path
      ∧ normalizePath (path ++ 47 :: rest) = normalizePath (normalizePath path ++ 47 :: rest) := by
  refine ⟨?_, ?_, ?_, ?_, ?_⟩
  · exact isNormal_normalizePath path
  · exact normalizePath_eq_self (isNormal_normalizePath path)
  · exact (removeDotSegments_collapseSlashes path).symm
  · exact normalizePath_slash path
  · exact (normalizePath_append path rest).symm

example : normalizePath (ascii "/a/./b/../c//d/..") = ascii "/a/c/" := by decide

end SigV4.Canonical
