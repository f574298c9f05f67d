import SigV4.Proofs.CanonicalPath

/-!
# Normal paths

`normalizePath` keeps a stack of segments and decides about the slash at the end by a rule of its
own. Here the rule becomes a segment too, an empty one, so that all is said about lists of segments:

* **`normalizePath_eq`**: the result is the text of the segments that are left, each with a slash in
  front of it, and of an empty segment behind them if the last segment names a directory.
* **`isNormal_normalizePath`**, **`normalizePath_eq_self`**: so the result is in normal form, and a
  path in normal form stays as it is.
* **`normalizePath_append`**: what follows a path may as well follow its normal form, since its
  segments are entered on the same stack (`resolveSegments_normalSegments`).
-/

namespace SigV4.Canonical

open Bytes

/-! ## Segments and their text -/

/-- The text of segments, with a slash in front of each. -/
def slashed (segments : List Bytes) : Bytes := segments.flatMap (47 :: ·)

/-- The text of segments starts with a slash and the first of them. -/
theorem slashed_cons (segment : Bytes) (segments : List Bytes) :
    slashed (segment :: segments) = 47 :: (segment ++ slashed segments) := rfl

/-- It is the segments joined by slashes, with an empty one in front. -/
theorem slashed_eq_join (segments : List Bytes) :
    slashed segments = join [47] ([] :: segments) := rfl

/-- The segments of a path have its text again, with a slash in front. -/
theorem slashed_split (path : Bytes) : slashed (split 47 path) = 47 :: path := by
  obtain ⟨first, others, hsplit⟩ := List.exists_cons_of_ne_nil (split_ne_nil 47 path)
  have hjoin := join_split 47 path
  rw [hsplit] at hjoin ⊢
  rw [slashed_eq_join, join_cons_cons, hjoin]
  rfl

/-- Segments without slashes are read off their text, behind the empty one. -/
theorem split_slashed {segments : List Bytes} (h : ∀ segment ∈ segments, 47 ∉ segment) :
    split 47 (slashed segments) = [] :: segments := by
  rw [slashed_eq_join]
  refine split_join (List.cons_ne_nil _ _) fun segment hsegment => ?_
  rcases List.mem_cons.mp hsegment with rfl | hsegment
  · exact List.not_mem_nil
  · exact h segment hsegment

theorem split_slash (path : Bytes) : split 47 (47 :: path) = [] :: split 47 path :=
  split_append_cons 47 [] path

/-- A path has a last segment, since splitting never leaves nothing. -/
theorem exists_split_concat (path : Bytes) : ∃ init last, split 47 path = init ++ [last] :=
  ⟨_, _, (List.dropLast_concat_getLast (split_ne_nil 47 path)).symm⟩

/-! ## Resolving segments

Segments are entered one after the other on a stack, and a parent takes the last one off. -/

/-- A segment that leads to a directory whatever stands in front of it. -/
def namesDirectory (segment : Bytes) : Bool := [[], ascii ".", ascii ".."].contains segment

/-- The empty segment and the two dot segments name a directory. -/
theorem namesDirectory_iff {segment : Bytes} :
    namesDirectory segment = true ↔ segment = [] ∨ segment = ascii "." ∨ segment = ascii ".." := by
  simp [namesDirectory]

/-- Any other segment is a name. -/
theorem namesDirectory_eq_false_iff {segment : Bytes} :
    namesDirectory segment = false
      ↔ segment ≠ [] ∧ segment ≠ ascii "." ∧ segment ≠ ascii ".." := by
  rw [← Bool.not_eq_true, namesDirectory_iff, not_or, not_or]

/-- The four kinds of segments. All that is said about entering a segment is said for each of them. -/
theorem segment_cases (segment : Bytes) :
    segment = [] ∨ segment = ascii "." ∨ segment = ascii ".." ∨ namesDirectory segment = false := by
  cases hname : namesDirectory segment with
  | true => simpa using namesDirectory_iff.mp hname
  | false => simp

/-- The slash that a directory keeps, as the empty segment behind it. -/
def closing (last : Bytes) : List Bytes := if namesDirectory last then [[]] else []

/-- All that can stand behind the last segment is an empty one. -/
theorem eq_nil_of_mem_closing {last segment : Bytes} (h : segment ∈ closing last) : segment = [] := by
  unfold closing at h
  split at h
  · exact List.mem_singleton.mp h
  · exact absurd h List.not_mem_nil

theorem enterSegment_nil (entered : List Bytes) : enterSegment entered [] = entered := rfl

theorem enterSegment_of_name {segment : Bytes} (h : namesDirectory segment = false)
    (entered : List Bytes) : enterSegment entered segment = segment :: entered := by
  obtain ⟨hempty, hsame, hparent⟩ := namesDirectory_eq_false_iff.mp h
  simp [enterSegment, hempty, hsame, hparent]

/-- Names go on the stack one after the other, so they come off it in reverse. -/
theorem foldl_enterSegment_of_names {segments : List Bytes}
    (h : ∀ segment ∈ segments, namesDirectory segment = false) (entered : List Bytes) :
    segments.foldl enterSegment entered = segments.reverse ++ entered := by
  induction segments generalizing entered with
  | nil => rfl
  | cons segment segments ih =>
    rw [List.foldl_cons, enterSegment_of_name (h segment List.mem_cons_self),
      ih fun other hother => h other (List.mem_cons_of_mem segment hother)]
    simp

/-- What is on the stack was there before or is a name that was entered. The induction is on the segments,
for any stack. -/
theorem mem_foldl_enterSegment {segments entered : List Bytes} {segment : Bytes}
    (h : segment ∈ segments.foldl enterSegment entered) :
    segment ∈ entered ∨ segment ∈ segments ∧ namesDirectory segment = false := by
  induction segments generalizing entered with
  | nil => exact .inl h
  | cons next segments ih =>
    rcases ih h with hentered | ⟨hsegment, hname⟩
    · -- Entering takes back a segment, does nothing, or adds the new one if it is a name.
      unfold enterSegment at hentered
      split at hentered
      · exact .inl (List.mem_of_mem_tail hentered)
      next hparent =>
        split at hentered
        · exact .inl hentered
        next hstay =>
          rcases List.mem_cons.mp hentered with rfl | hentered
          · simp only [Bool.or_eq_true, List.isEmpty_iff, decide_eq_true_eq, not_or] at hstay
            exact .inr ⟨List.mem_cons_self,
              namesDirectory_eq_false_iff.mpr ⟨hstay.1, hstay.2, hparent⟩⟩
          · exact .inl hentered
    · exact .inr ⟨List.mem_cons_of_mem next hsegment, hname⟩

/-- What is left of segments are names among them. -/
theorem mem_resolveSegments {segments : List Bytes} {segment : Bytes}
    (h : segment ∈ resolveSegments segments) :
    segment ∈ segments ∧ namesDirectory segment = false := by
  rcases mem_foldl_enterSegment (List.mem_reverse.mp h) with hnil | hsegment
  · exact absurd hnil List.not_mem_nil
  · exact hsegment

/-- Segments behind others are entered on the stack that those leave. -/
theorem resolveSegments_append (front rest : List Bytes) :
    resolveSegments (front ++ rest)
      = (rest.foldl enterSegment (resolveSegments front).reverse).reverse := by
  rw [resolveSegments, resolveSegments, List.foldl_append, List.reverse_reverse]

/-- A name at the end is there in the end. -/
theorem resolveSegments_concat_of_name {last : Bytes} (h : namesDirectory last = false)
    (init : List Bytes) : resolveSegments (init ++ [last]) = resolveSegments init ++ [last] := by
  rw [resolveSegments_append, List.foldl_cons, List.foldl_nil, enterSegment_of_name h]
  simp

/-- The segments of a normal form, behind the root. -/
def normalSegments (init : List Bytes) (last : Bytes) : List Bytes :=
  resolveSegments (init ++ [last]) ++ closing last

/-- Whatever follows the segments of a normal form ends up where it would have ended up behind the
segments that it is the normal form of. -/
theorem resolveSegments_normalSegments (init : List Bytes) (last : Bytes) (rest : List Bytes) :
    resolveSegments ([] :: normalSegments init last ++ rest)
      = resolveSegments (init ++ [last] ++ rest) := by
  have hnames : ∀ segment ∈ resolveSegments (init ++ [last]), namesDirectory segment = false :=
    fun segment hsegment => (mem_resolveSegments hsegment).2
  have hclosing (entered : List Bytes) : (closing last).foldl enterSegment entered = entered := by
    unfold closing
    split
    · rfl
    · rfl
  -- The segments of the normal form are names, so entering them makes the stack that they came from.
  have hfront : resolveSegments ([] :: normalSegments init last) = resolveSegments (init ++ [last]) := by
    show ((normalSegments init last).foldl enterSegment []).reverse = _
    rw [normalSegments, List.foldl_append, foldl_enterSegment_of_names hnames, hclosing]
    simp
  rw [resolveSegments_append ([] :: normalSegments init last), hfront,
    resolveSegments_append (init ++ [last])]

/-! ## The text of a normal form -/

section

variable {path last : Bytes} {init : List Bytes}

/-- The rule about the slash at the end looks at the text of the path. It says that there is a slash in
front of the last segment and that this segment names a directory. -/
theorem endsAsDirectory_iff (h : split 47 path = init ++ [last]) :
    endsAsDirectory path = true ↔ init ≠ [] ∧ namesDirectory last = true := by
  have hends (segment : Bytes) (hsegment : 47 ∉ segment) :
      (47 :: segment).isSuffixOf path = true ↔ init ≠ [] ∧ last = segment := by
    rw [List.isSuffixOf_iff_suffix, slash_suffix_iff hsegment, h]
    constructor
    · rintro ⟨front, hfront, hsplit⟩
      obtain ⟨rfl, hlast⟩ := List.append_inj' hsplit rfl
      exact ⟨hfront, (List.cons.inj hlast).1⟩
    · rintro ⟨hinit, rfl⟩
      exact ⟨init, hinit, rfl⟩
  -- A path ends as a directory in one of three ways, and each is a last segment.
  have hslash := hends [] (by decide)
  have hsame := hends (ascii ".") (by decide)
  have hparent := hends (ascii "..") (by decide)
  unfold endsAsDirectory
  rw [show ascii "/" = [47] from rfl, show ascii "/." = 47 :: ascii "." from rfl,
    show ascii "/.." = 47 :: ascii ".." from rfl, namesDirectory_iff]
  simp only [List.any_cons, List.any_nil, Bool.or_false, Bool.or_eq_true, hslash, hsame, hparent]
  rw [← and_or_left, ← and_or_left]

/-- A normalised path is the text of its normal segments. The two cases are those of `normalizePath`:
nothing is left, or some segments are. -/
theorem normalizePath_eq (h : split 47 path = init ++ [last]) :
    normalizePath path = slashed (normalSegments init last) := by
  have hends := endsAsDirectory_iff h
  unfold normalizePath
  dsimp only
  rw [h, normalSegments, closing]
  cases hsegments : resolveSegments (init ++ [last]) with
  | nil =>
    -- Nothing is left, so the last segment was no name, and the root is what remains.
    cases hlast : namesDirectory last with
    | true => rfl
    | false =>
      rw [resolveSegments_concat_of_name hlast] at hsegments
      simp at hsegments
  | cons first others =>
    -- Something is left, so a last segment that is no name has others in front of it.
    have hinit : namesDirectory last = true → init ≠ [] := by
      rintro hlast rfl
      have hfirst : first ∈ resolveSegments ([] ++ [last]) := by
        rw [hsegments]
        exact List.mem_cons_self
      obtain ⟨hmem, hname⟩ := mem_resolveSegments hfirst
      rw [List.mem_singleton.mp hmem, hlast] at hname
      exact absurd hname (by decide)
    have htext : ascii "/" ++ join (ascii "/") (first :: others) = slashed (first :: others) := by
      rw [slashed_eq_join, join_cons_cons]
      rfl
    rw [htext]
    cases hlast : namesDirectory last with
    | true =>
      have hdirectory : endsAsDirectory path = true := hends.mpr ⟨hinit hlast, hlast⟩
      simp [hdirectory, slashed, show ascii "/" = [47] from rfl]
    | false =>
      have hdirectory : endsAsDirectory path = false := by
        rw [← Bool.not_eq_true, hends, hlast]
        simp
      simp [hdirectory]

/-- Cut at its slashes, a normalised path has its normal segments behind the root. -/
theorem split_normalizePath (h : split 47 path = init ++ [last]) :
    split 47 (normalizePath path) = [] :: normalSegments init last := by
  rw [normalizePath_eq h]
  refine split_slashed fun segment hsegment => ?_
  rcases List.mem_append.mp hsegment with hsegment | hsegment
  · have hmem := (mem_resolveSegments hsegment).1
    exact not_mem_of_mem_split (h ▸ hmem)
  · rw [eq_nil_of_mem_closing hsegment]
    exact List.not_mem_nil

end

/-! ## Normal form -/

/-- A path that starts at the root and has no dot segment, and no empty segment but at its ends. -/
structure IsNormal (path : Bytes) : Prop where
  rooted : path.head? = some 47
  dots : ∀ segment ∈ split 47 path, segment ≠ ascii "." ∧ segment ≠ ascii ".."
  inner : ∀ segment ∈ (split 47 path).tail.dropLast, segment ≠ []

/-- What is normalised is in normal form. The segments that are left are names, and the only empty one
stands at the end. -/
theorem isNormal_normalizePath (path : Bytes) : IsNormal (normalizePath path) := by
  obtain ⟨init, last, hsplit⟩ := exists_split_concat path
  have hname {segment : Bytes} (h : segment ∈ resolveSegments (init ++ [last])) :
      segment ≠ [] ∧ segment ≠ ascii "." ∧ segment ≠ ascii ".." :=
    namesDirectory_eq_false_iff.mp (mem_resolveSegments h).2
  refine ⟨rfl, fun segment hsegment => ?_, fun segment hsegment => ?_⟩
  · rw [split_normalizePath hsplit] at hsegment
    -- The segment is the one in front of the first slash, one that remains, or the empty one at the end.
    rcases List.mem_cons.mp hsegment with rfl | hsegment
    · decide
    · rcases List.mem_append.mp hsegment with hsegment | hsegment
      · exact (hname hsegment).2
      · rw [eq_nil_of_mem_closing hsegment]
        decide
  · rw [split_normalizePath hsplit, List.tail_cons, normalSegments, closing] at hsegment
    split at hsegment
    · rw [List.dropLast_concat] at hsegment
      exact (hname hsegment).1
    · rw [List.append_nil] at hsegment
      exact (hname (List.dropLast_subset _ hsegment)).1

/-- A path in normal form stays as it is: its segments are names, so they are all left in the end. Whether
it ends in a slash is told by its last segment, before and after. -/
theorem normalizePath_eq_self {path : Bytes} (h : IsNormal path) : normalizePath path = path := by
  obtain ⟨rest, rfl⟩ : ∃ rest, path = 47 :: rest := List.head?_eq_some_iff.mp h.rooted
  obtain ⟨inner, last, hrest⟩ := exists_split_concat rest
  have hsplit : split 47 (47 :: rest) = [] :: inner ++ [last] := by
    rw [split_slash, hrest]
    rfl
  -- Inner segments are neither empty nor dots, so they are names.
  have hinner : ∀ segment ∈ inner, namesDirectory segment = false := by
    intro segment hsegment
    have hempty := h.inner segment (by simpa [hsplit] using hsegment)
    have hdots := h.dots segment (by simp [hsplit, hsegment])
    exact namesDirectory_eq_false_iff.mpr ⟨hempty, hdots⟩
  -- The last segment is a name or empty, and an empty one comes back as the slash at the end.
  have hlast : normalSegments ([] :: inner) last = inner ++ [last] := by
    have hresolve : resolveSegments ([] :: inner) = inner := by
      show (inner.foldl enterSegment []).reverse = inner
      rw [foldl_enterSegment_of_names hinner]
      simp
    have hdots := h.dots last (by simp [hsplit])
    rw [normalSegments, closing]
    cases hname : namesDirectory last with
    | true =>
      have hempty : last = [] := (namesDirectory_iff.mp hname).resolve_right (not_or.mpr hdots)
      rw [hempty, resolveSegments_append, hresolve]
      simp [enterSegment_nil]
    | false =>
      rw [resolveSegments_concat_of_name hname, hresolve]
      simp
  rw [normalizePath_eq hsplit, hlast, ← hrest, slashed_split]

/-- What follows a path may as well follow its normal form. Its segments are entered on the same stack, and
the slash at the end depends on what follows only. -/
theorem normalizePath_append (path rest : Bytes) :
    normalizePath (normalizePath path ++ 47 :: rest) = normalizePath (path ++ 47 :: rest) := by
  obtain ⟨init, last, hpath⟩ := exists_split_concat path
  obtain ⟨front, ending, hrest⟩ := exists_split_concat rest
  have hsplit : split 47 (path ++ 47 :: rest) = (init ++ [last] ++ front) ++ [ending] := by
    rw [split_append_cons, hpath, hrest, List.append_assoc, List.append_assoc, List.append_assoc]
  have hsplit' : split 47 (normalizePath path ++ 47 :: rest)
      = ([] :: normalSegments init last ++ front) ++ [ending] := by
    rw [split_append_cons, split_normalizePath hpath, hrest, List.append_assoc]
  have hresolve : resolveSegments (([] :: normalSegments init last ++ front) ++ [ending])
      = resolveSegments ((init ++ [last] ++ front) ++ [ending]) := by
    rw [List.append_assoc, resolveSegments_normalSegments, ← List.append_assoc]
  have hnormal : normalSegments ([] :: normalSegments init last ++ front) ending
      = normalSegments (init ++ [last] ++ front) ending := congrArg (· ++ closing ending) hresolve
  rw [normalizePath_eq hsplit', hnormal, ← normalizePath_eq hsplit]

/-- A path that does not start at the root is meant from there, since the empty segment in front is entered
without effect. -/
theorem normalizePath_slash (path : Bytes) : normalizePath (47 :: path) = normalizePath path := by
  obtain ⟨init, last, hsplit⟩ := exists_split_concat path
  have hrooted : split 47 (47 :: path) = ([] :: init) ++ [last] := by
    rw [split_slash, hsplit]
    rfl
  rw [normalizePath_eq hrooted, normalizePath_eq hsplit]
  rfl

end SigV4.Canonical
