import SigV4.Bytes

/-!
# Cutting byte strings and joining the parts

Texts are taken apart in two ways: at the first occurrence of a needle (`Bytes.cut?`) and at every
separator (`Bytes.split`). Both undo a concatenation as long as the separator does not occur in the
parts, and that is what every reader of a joined text rests on:

* **`cut?_append`**: text in front of a needle, in which the needle's first byte does not occur, is
  cut off exactly.
* **`cut?_eq_some_iff`**: a text is cut at the first place where the needle stands. In front of a needle
  that does not stand there either, but whose first byte may, the cut is exact
  (`cut?_append_of_not_infix`) or overlaps the needle (`exists_cut?_append`).
* **`splitWhere_eq_splitOnP`**, **`join_eq_intercalate`**: splitting and joining are those of the
  standard library, whose laws (`split_join`, `join_split`, `split_append_cons`) are carried over.
-/

namespace SigV4.Bytes

/-! ## The first occurrence of a needle -/

/-- The scan passes over a text in which the needle's first byte does not occur, as the needle starts
nowhere in it, and takes it up into what was passed. -/
theorem cut?_go_append {b : UInt8} {needle front : Bytes} (hfront : b ∉ front) (passed rest : Bytes) :
    cut?.go (b :: needle) passed (front ++ rest)
      = cut?.go (b :: needle) (front.reverse ++ passed) rest := by
  induction front generalizing passed with
  | nil => rfl
  | cons x front ih =>
    obtain ⟨hx, hfront⟩ := List.ne_and_not_mem_of_not_mem_cons hfront
    have hne : (b == x) = false := by simpa using hx
    simp only [List.cons_append, cut?.go, List.isPrefixOf, hne, Bool.false_and, Bool.false_eq_true,
      if_false]
    rw [ih hfront (x :: passed), List.reverse_cons, List.append_assoc]
    rfl

/-- A needle whose first byte does not occur in front of it is found where it stands. -/
theorem cut?_append {b : UInt8} {needle front : Bytes} (hfront : b ∉ front) (rest : Bytes) :
    cut? (b :: needle) (front ++ (b :: needle) ++ rest) = some (front, rest) := by
  -- The scan passes over `front`, in which the needle starts nowhere, and stops behind it.
  have hprefix : (b :: needle).isPrefixOf (b :: (needle ++ rest)) = true :=
    List.isPrefixOf_iff_prefix.mpr (List.prefix_append (b :: needle) rest)
  rw [cut?, List.append_assoc, cut?_go_append hfront, List.cons_append, cut?.go, if_pos hprefix]
  simp

/-- Where a text is cut is determined by the text: if the same separator occurs in neither front, the fronts
are the same, as cutting finds both of them. -/
theorem append_cons_inj {b : UInt8} {front front' rest rest' : Bytes} (hfront : b ∉ front)
    (hfront' : b ∉ front') (h : front ++ b :: rest = front' ++ b :: rest') :
    front = front' ∧ rest = rest' := by
  have hneedle (front rest : Bytes) : front ++ b :: rest = front ++ [b] ++ rest := by simp
  have hcut : cut? [b] (front ++ [b] ++ rest) = some (front, rest) := cut?_append hfront rest
  have hcut' : cut? [b] (front' ++ [b] ++ rest') = some (front', rest') := cut?_append hfront' rest'
  rw [← hneedle, h, hneedle, hcut'] at hcut
  exact Prod.mk.inj (Option.some.inj hcut.symm)

/-- Without the first byte of the needle there is no needle. -/
theorem cut?_eq_none {b : UInt8} {needle text : Bytes} (htext : b ∉ text) :
    cut? (b :: needle) text = none := by
  -- The scan passes over the whole text and finds nothing behind it.
  have hpassed : cut?.go (b :: needle) [] (text ++ []) = cut?.go (b :: needle) (text.reverse ++ []) [] :=
    cut?_go_append htext [] []
  rw [List.append_nil] at hpassed
  rw [cut?, hpassed, cut?.go]
  rfl

/-- A needle is found wherever it stands. The induction is on the text that the scan has still before it,
and what was passed is of no account. -/
theorem isSome_cut?_iff {needle text : Bytes} : (cut? needle text).isSome = true ↔ needle <:+: text := by
  have hgo (passed : Bytes) : (cut?.go needle passed text).isSome = true ↔ needle <:+: text := by
    induction text generalizing passed with
    | nil =>
      rw [cut?.go, List.infix_nil]
      split
      next h => simpa using h
      next h => simpa using h
    | cons b rest ih =>
      rw [cut?.go, List.infix_cons_iff]
      split
      next h => exact iff_of_true rfl (.inl (List.isPrefixOf_iff_prefix.mp h))
      next h => rw [ih, or_iff_right fun hprefix => h (List.isPrefixOf_iff_prefix.mpr hprefix)]
  exact hgo []

/-- Cutting fails exactly if the needle stands nowhere. -/
theorem cut?_eq_none_iff {needle text : Bytes} : cut? needle text = none ↔ ¬ needle <:+: text := by
  rw [← Option.not_isSome_iff_eq_none, isSome_cut?_iff]

/-- What the scan finds behind what it has passed already: it skips some bytes, the needle follows them, and
it started at none of the places that were skipped. The induction is on the text, and the places in it are
counted from where the scan stands. -/
theorem cut?_go_eq_some_iff {needle passed text front back : Bytes} :
    cut?.go needle passed text = some (front, back) ↔ ∃ skipped, front = passed.reverse ++ skipped
      ∧ text = skipped ++ needle ++ back ∧ ∀ k < skipped.length, ¬ needle <+: text.drop k := by
  induction text generalizing passed with
  | nil =>
    rw [cut?.go]
    constructor
    · intro hcut
      split at hcut
      next h =>
        obtain ⟨rfl, rfl⟩ := by simpa using hcut
        exact ⟨[], by simp, by simpa using h, by simp⟩
      next => contradiction
    · rintro ⟨skipped, rfl, htext, -⟩
      obtain ⟨rfl, rfl, rfl⟩ := by simpa using htext
      simp
  | cons b rest ih =>
    rw [cut?.go]
    split
    next h =>
      have hprefix : needle <+: b :: rest := List.isPrefixOf_iff_prefix.mp h
      constructor
      · intro hcut
        obtain ⟨rfl, rfl⟩ := by simpa using hcut
        refine ⟨[], by simp, ?_, by simp⟩
        exact (List.prefix_iff_eq_append.mp hprefix).symm
      · rintro ⟨skipped, rfl, htext, hskipped⟩
        -- The needle stands here, so nothing was skipped.
        obtain rfl : skipped = [] := by
          refine List.length_eq_zero_iff.mp (Nat.eq_zero_of_not_pos fun hpos => ?_)
          exact hskipped 0 hpos hprefix
        rw [htext]
        simp
    next h =>
      have hprefix : ¬ needle <+: b :: rest := fun hprefix => h (List.isPrefixOf_iff_prefix.mpr hprefix)
      rw [ih]
      constructor
      · rintro ⟨skipped, rfl, rfl, hskipped⟩
        -- One more byte was skipped, and all places move on by one.
        refine ⟨b :: skipped, by simp, rfl, fun k hk => ?_⟩
        cases k with
        | zero => exact hprefix
        | succ k => exact hskipped k (by simpa using hk)
      · rintro ⟨skipped, rfl, htext, hskipped⟩
        cases skipped with
        | nil => exact absurd ⟨back, htext.symm⟩ hprefix
        | cons x skipped =>
          obtain ⟨rfl, hrest⟩ := List.cons.inj htext
          refine ⟨skipped, by simp, hrest, fun k hk => ?_⟩
          exact hskipped (k + 1) (by simpa using hk)

/-- A text is cut at the first place where the needle stands. The condition on the places in front of it is
what makes the cut unique; the equation alone holds of every place of the needle. -/
theorem cut?_eq_some_iff {needle text front back : Bytes} :
    cut? needle text = some (front, back)
      ↔ text = front ++ needle ++ back ∧ ∀ k < front.length, ¬ needle <+: text.drop k := by
  rw [cut?, cut?_go_eq_some_iff]
  simp

/-- A needle that does not stand in the front can begin in it, but then it reaches beyond it. So of two
places of a needle the later one begins inside the earlier one. -/
theorem length_lt_of_prefix_drop {needle front rest : Bytes} {k : Nat} (hfront : ¬ needle <:+: front)
    (hk : k ≤ front.length) (h : needle <+: (front ++ rest).drop k) :
    front.length < k + needle.length := by
  refine Nat.lt_of_not_le fun hle => ?_
  have hlength : needle.length ≤ (front.drop k).length := by
    rw [List.length_drop]
    omega
  rw [List.drop_append_of_le_length hk] at h
  -- If it did not reach beyond the front, it would stand in it.
  have hinside : needle <+: front.drop k :=
    List.prefix_of_prefix_length_le h (List.prefix_append _ _) hlength
  exact hfront (hinside.isInfix.trans (List.drop_suffix k front).isInfix)

/-- A needle whose first byte does not come again in it is found where it stands, if it stands nowhere in
front of that place. Such a needle does not overlap itself, so no earlier place can reach into this one. A
tag is of this kind; a key between quotes is not. -/
theorem cut?_append_of_not_infix {b : UInt8} {needle front : Bytes} (hneedle : b ∉ needle)
    (hfront : ¬ (b :: needle) <:+: front) (rest : Bytes) :
    cut? (b :: needle) (front ++ (b :: needle) ++ rest) = some (front, rest) := by
  refine cut?_eq_some_iff.mpr ⟨rfl, fun k hk hprefix => hneedle ?_⟩
  rw [List.append_assoc] at hprefix
  have hlength := length_lt_of_prefix_drop hfront (Nat.le_of_lt hk) hprefix
  rw [List.length_cons] at hlength
  -- An occurrence that begins in `front` has the first byte of the other one among its later bytes.
  obtain ⟨j, hj⟩ : ∃ j, front.length = k + (j + 1) := ⟨front.length - k - 1, by omega⟩
  obtain ⟨behind, hbehind⟩ := hprefix
  have hbyte := congrArg (·[j + 1]?) hbehind
  simp only [List.getElem?_drop, ← hj, List.cons_append, List.getElem?_cons_succ] at hbyte
  rw [List.getElem?_append_left (by omega), List.getElem?_append_right (Nat.le_refl _), Nat.sub_self] at hbyte
  exact List.mem_of_getElem? hbyte

/-- A needle that does not stand in the front is found where it stands, or it overlaps that place from in
front; then a last part of it is left over. Nothing is asked of the needle, so this is for needles that can
overlap themselves. -/
theorem exists_cut?_append {needle front : Bytes} (hfront : ¬ needle <:+: front) (rest : Bytes) :
    ∃ passed left, left <:+ needle
      ∧ cut? needle (front ++ needle ++ rest) = some (passed, left ++ rest) := by
  have hsome : (cut? needle (front ++ needle ++ rest)).isSome = true := by
    rw [isSome_cut?_iff, List.append_assoc]
    exact (List.prefix_append needle rest).isInfix.trans (List.suffix_append front _).isInfix
  obtain ⟨⟨passed, back⟩, hcut⟩ := Option.isSome_iff_exists.mp hsome
  obtain ⟨htext, hfirst⟩ := cut?_eq_some_iff.mp hcut
  -- It is found at that place at the latest.
  have hle : passed.length ≤ front.length := by
    refine Nat.le_of_not_lt fun hlt => hfirst front.length hlt ?_
    rw [List.append_assoc, List.drop_left]
    exact List.prefix_append needle rest
  -- It is found so late that it reaches beyond the front.
  have hlt : front.length < passed.length + needle.length := by
    have hprefix : needle <+: (front ++ (needle ++ rest)).drop passed.length := by
      rw [← List.append_assoc, htext, List.append_assoc, List.drop_left]
      exact List.prefix_append needle back
    exact length_lt_of_prefix_drop hfront hle hprefix
  have hback : back = needle.drop (passed.length + needle.length - front.length) ++ rest := by
    have hdrop := congrArg (List.drop (passed.length + needle.length)) htext
    rw [← List.length_append, List.drop_left, List.append_assoc, List.drop_append,
      List.drop_eq_nil_of_le (by rw [List.length_append]; omega), List.nil_append, List.length_append,
      List.drop_append_of_le_length (by omega)] at hdrop
    exact hdrop.symm
  refine ⟨passed, needle.drop (passed.length + needle.length - front.length),
    List.drop_suffix _ needle, ?_⟩
  rw [hcut, hback]

/-! ## Parts between separators -/

/-- The scan of `splitWhere` is that of the standard library, with the part that is being read in reverse on
both sides. -/
theorem splitWhere_go_eq (p : UInt8 → Bool) (part text : Bytes) :
    splitWhere.go p part text = text.splitOnPPrepend p part := by
  induction text generalizing part with
  | nil => simp [splitWhere.go]
  | cons b rest ih =>
    rw [splitWhere.go, List.splitOnPPrepend_cons_eq_if]
    split
    · rw [ih, List.splitOnPPrepend_nil_right]
    · exact ih (b :: part)

/-- Splitting where a predicate holds is `List.splitOnP`, so its laws need no proof of their own. -/
theorem splitWhere_eq_splitOnP (p : UInt8 → Bool) (text : Bytes) :
    splitWhere p text = text.splitOnP p :=
  splitWhere_go_eq p [] text

/-- Splitting at a byte is `List.splitOn`. -/
theorem split_eq_splitOn (separator : UInt8) (text : Bytes) :
    split separator text = text.splitOn separator :=
  splitWhere_eq_splitOnP _ text

/-- Joining is `List.intercalate`. The two go through the list in the same way, but only from its second
part on is a separator put in front. -/
theorem join_eq_intercalate (separator : Bytes) (parts : List Bytes) :
    join separator parts = separator.intercalate parts := by
  cases parts with
  | nil => rfl
  | cons part parts =>
    induction parts generalizing part with
    | nil => simp [join]
    | cons next parts ih =>
      rw [List.intercalate_cons_cons, ← ih next]
      simp [join]

@[simp] theorem join_singleton (separator part : Bytes) : join separator [part] = part := by
  simp [join]

/-- The step by which a join is taken apart: the first part and its separator, if another part follows. -/
theorem join_cons_cons (separator part next : Bytes) (parts : List Bytes) :
    join separator (part :: next :: parts) = part ++ separator ++ join separator (next :: parts) := by
  simp [join]

theorem split_ne_nil (separator : UInt8) (text : Bytes) : split separator text ≠ [] := by
  rw [split_eq_splitOn]
  exact List.splitOn_ne_nil separator text

/-- Parts without the separator come out of their join as they went in. An empty list does not, as the empty
text has one part. -/
theorem split_join {separator : UInt8} {parts : List Bytes} (hne : parts ≠ [])
    (hparts : ∀ part ∈ parts, separator ∉ part) :
    split separator (join [separator] parts) = parts := by
  rw [split_eq_splitOn, join_eq_intercalate]
  exact List.splitOn_intercalate separator hparts hne

/-- Splitting loses nothing: joined by the separator again, the parts are the text. -/
theorem join_split (separator : UInt8) (text : Bytes) :
    join [separator] (split separator text) = text := by
  rw [split_eq_splitOn, join_eq_intercalate, List.intercalate_splitOn]

/-- A separator ends one list of parts and begins another, whatever stands on its two sides. -/
theorem split_append_cons (separator : UInt8) (front rest : Bytes) :
    split separator (front ++ separator :: rest) = split separator front ++ split separator rest := by
  simp only [split_eq_splitOn, List.splitOn_append_cons_self]

theorem split_eq_singleton {separator : UInt8} {text : Bytes} (h : separator ∉ text) :
    split separator text = [text] := by
  rw [split_eq_splitOn, List.splitOn_eq_singleton h]

theorem infix_of_mem_join {separator part : Bytes} {parts : List Bytes} (h : part ∈ parts) :
    part <:+: join separator parts := by
  cases parts with
  | nil => exact absurd h List.not_mem_nil
  | cons first parts =>
    rcases List.mem_cons.mp h with rfl | h
    · exact (List.prefix_append _ _).isInfix
    · have hflat : separator ++ part <:+: parts.flatMap (separator ++ ·) := by
        exact List.infix_of_mem_flatten (List.mem_map_of_mem h)
      exact ((List.suffix_append _ _).isInfix.trans hflat).trans (List.suffix_append _ _).isInfix

/-- Parts stand in the text. So what occurs nowhere in a text, such as a line break, occurs in none of its
parts. -/
theorem infix_of_mem_split {separator : UInt8} {text part : Bytes} (h : part ∈ split separator text) :
    part <:+: text := by
  have hjoin : part <:+: join [separator] (split separator text) := infix_of_mem_join h
  rwa [join_split] at hjoin

/-- Parts do not contain the separator. Induction on the text, the part that a byte belongs to being
the first one of what remains. -/
theorem not_mem_of_mem_split {separator : UInt8} {text part : Bytes}
    (h : part ∈ split separator text) : separator ∉ part := by
  rw [split_eq_splitOn] at h
  induction text generalizing part with
  | nil =>
    rw [List.splitOn_nil, List.mem_singleton] at h
    rw [h]
    exact List.not_mem_nil
  | cons b text ih =>
    rw [List.splitOn_cons_eq_if_modifyHead] at h
    split at h
    next =>
      rcases List.mem_cons.mp h with rfl | h
      · exact List.not_mem_nil
      · exact ih h
    next hb =>
      -- The byte is no separator and belongs to the first part of what follows it.
      obtain ⟨first, others, hsplit⟩ := List.exists_cons_of_ne_nil (List.splitOn_ne_nil separator text)
      rw [hsplit, List.modifyHead_cons] at h
      rcases List.mem_cons.mp h with rfl | h
      · refine List.not_mem_cons_of_ne_of_not_mem ?_ (ih (by simp [hsplit]))
        rintro rfl
        simp at hb
      · exact ih (by simp [hsplit, h])

/-- A part is added at the end of a join behind a separator, if it is not the only one. -/
theorem join_concat (separator : Bytes) {init : List Bytes} (hinit : init ≠ []) (last : Bytes) :
    join separator (init ++ [last]) = join separator init ++ separator ++ last := by
  induction init with
  | nil => exact absurd rfl hinit
  | cons part init ih =>
    cases init with
    | nil => simp [join]
    | cons next init =>
      rw [List.cons_append, List.cons_append, join_cons_cons, ← List.cons_append,
        ih (List.cons_ne_nil _ _), join_cons_cons]
      simp only [List.append_assoc]

end SigV4.Bytes
