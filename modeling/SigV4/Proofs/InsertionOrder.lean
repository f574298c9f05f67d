import SigV4.Proofs.Edits

/-!
# Collections in the order of insertion

A collection is sorted by name, and yet the order in which values of one name were added is not
lost: a new element is put behind all that it does not precede. So a collection that was made from a
list (`Fields.ofList`) has the elements of that list (`Fields.entries_ofList_perm`) and the values
of a name as they stand there (`Fields.filter_named_ofList`). And whatever has the entries of a list in this
way is its stable sort (`Fields.entries_eq_mergeSort`), so how the collection came about does not matter.
-/

namespace SigV4

namespace Ordered

variable {α : Type} {before : α → α → Bool}

/-- An element that precedes none of the others is put behind all of them. -/
theorem insert_eq_concat {x : α} {xs : List α} (h : ∀ y ∈ xs, before x y = false) :
    insert before x xs = xs ++ [x] := by
  induction xs with
  | nil => rfl
  | cons y ys ih =>
    rw [insert, if_neg (by simp [h y List.mem_cons_self]),
      ih fun z hz => h z (List.mem_cons_of_mem y hz)]
    rfl

end Ordered

namespace Fields

variable {order : KeyOrder}

/-- A value is added behind those of its name, and other names do not see it. Both cases of the name are in
this one equation, so that runs of additions can be rewritten without telling them apart. -/
theorem filter_named_add (fields : Fields order) (name value other : Bytes) :
    (fields.add name value).entries.filter (named order other)
      = fields.entries.filter (named order other) ++ [(name, value)].filter (named order other) := by
  cases hnamed : named order other (name, value) with
  | false =>
    rw [List.filter_cons_of_neg (by simp [hnamed]), List.filter_nil, List.append_nil]
    exact Ordered.filter_insert_of_false _ hnamed fields.entries
  | true =>
    have hkept := @Ordered.filter_insert_of_true _ (fun a b => order.before a.1 b.1) _ _ hnamed
      (fun y z => order.lt_of_lt_of_le) _ fields.sorted
    -- No value of the name precedes another one.
    have hsame : ∀ entry ∈ fields.entries.filter (named order other),
        order.before name entry.1 = false := by
      intro entry hentry
      have hentry' := (List.mem_filter.mp hentry).2
      simp only [named, beq_iff_eq] at hentry' hnamed
      rw [← Bool.not_eq_true, order.before_iff, hentry', hnamed]
      exact Std.lt_irrefl
    rw [List.filter_cons_of_pos hnamed, List.filter_nil]
    exact hkept.trans (Ordered.insert_eq_concat hsame)

/-- Erasing a name and looking at another one can be done in either order, as both leave entries out and
move none. -/
theorem filter_named_erase (fields : Fields order) (name other : Bytes) :
    (fields.erase name).entries.filter (named order other)
      = (fields.entries.filter (named order other)).filter fun entry => !named order name entry := by
  show (fields.entries.filter fun entry => !named order name entry).filter _ = _
  rw [List.filter_filter, List.filter_filter]
  simp only [Bool.and_comm]

/-- Additions in a row, seen from the entries: each is an insertion into the sorted list. -/
theorem entries_foldl_add (added : List (Bytes × Bytes)) (fields : Fields order) :
    (added.foldl (fun fields (name, value) => fields.add name value) fields).entries
      = added.foldl (fun entries entry =>
          Ordered.insert (fun a b => order.before a.1 b.1) entry entries) fields.entries := by
  induction added generalizing fields with
  | nil => rfl
  | cons entry added ih => exact ih (fields.add entry.1 entry.2)

/-- To add one after the other is to sort. The sort is stable, for the collection inserts a new entry behind
those of the same name. -/
theorem entries_ofList (added : List (Bytes × Bytes)) :
    (ofList order added).entries = Ordered.sort (fun a b => order.before a.1 b.1) added :=
  entries_foldl_add added ∅

/-- Nothing is lost and nothing is there twice: what was added is only put into another order. -/
theorem entries_ofList_perm (added : List (Bytes × Bytes)) :
    (ofList order added).entries.Perm added := by
  rw [entries_ofList]
  exact Ordered.sort_perm _ added

theorem mem_ofList {added : List (Bytes × Bytes)} {entry : Bytes × Bytes} :
    entry ∈ (ofList order added).entries ↔ entry ∈ added := (entries_ofList_perm added).mem_iff

/-- The values of a name come in the order in which they were added. The induction is on what is still to be
added, and so it has to speak of any collection that was reached by then. -/
theorem filter_named_ofList (added : List (Bytes × Bytes)) (name : Bytes) :
    (ofList order added).entries.filter (named order name) = added.filter (named order name) := by
  have hfold (fields : Fields order) :
      (added.foldl (fun fields (name, value) => fields.add name value) fields).entries.filter
          (named order name)
        = fields.entries.filter (named order name) ++ added.filter (named order name) := by
    induction added generalizing fields with
    | nil => exact (List.append_nil _).symm
    | cons entry added ih =>
      rw [List.foldl_cons, ih, filter_named_add, List.append_assoc, ← List.filter_append]
      rfl
  exact hfold ∅

/-- The fields are those that were added, in the order of their names, and those of one name in the order
in which they were added. -/
structure Collects (added : List (Bytes × Bytes)) (fields : Fields order) : Prop where
  perm : fields.entries.Perm added
  ascending : fields.entries.Pairwise fun a b => order.rank a.1 ≤ order.rank b.1
  grouped : ∀ name, fields.entries.filter (named order name) = added.filter (named order name)

/-- The entries of a collection ascend by their keys. The invariant says only that none precedes an earlier
one, and the keys are ordered linearly. -/
theorem ascending_entries (fields : Fields order) :
    fields.entries.Pairwise fun a b => order.rank a.1 ≤ order.rank b.1 := by
  refine fields.sorted.imp fun {a b} h => ?_
  rw [← Bool.not_eq_true, order.before_iff] at h
  exact List.not_lt.mp h

theorem collects_ofList (added : List (Bytes × Bytes)) : Collects added (ofList order added) :=
  ⟨entries_ofList_perm added, ascending_entries _, filter_named_ofList added⟩

/-! ## The stable sort

A collection is determined by its entries of each name, so it is the stable sort of any list that has the
same ones in the same order. -/

section

variable {fields : Fields order} {listed entries others : List (Bytes × Bytes)} {entry other : Bytes × Bytes}

/-- Lists with the same entries of each name have the same entries, as each one is kept by the filter of its
own name. -/
theorem mem_iff_of_filter_eq
    (h : ∀ name, entries.filter (named order name) = others.filter (named order name))
    (entry : Bytes × Bytes) : entry ∈ entries ↔ entry ∈ others := by
  have hkept (list : List (Bytes × Bytes)) :
      entry ∈ list ↔ entry ∈ list.filter (named order entry.1) := by
    rw [List.mem_filter, and_iff_left (named_self order entry.1 entry.2)]
  rw [hkept entries, hkept others, h]

/-- The first entry of an ascending list has the least key. -/
theorem rank_le_of_mem (h : (entry :: entries).Pairwise fun a b => order.rank a.1 ≤ order.rank b.1)
    (hother : other ∈ entry :: entries) : order.rank entry.1 ≤ order.rank other.1 := by
  rcases List.mem_cons.mp hother with rfl | hother
  · exact Std.le_refl _
  · exact (List.pairwise_cons.mp h).1 other hother

/-- Entries that ascend by name are determined by those of each name. Induction on both lists: they start
with the same name, as neither may start later than the other, and with the same entry of it, as the entries
of that name are the same on both sides. What follows has again the same entries of each name. -/
theorem eq_of_ascending (hentries : entries.Pairwise fun a b => order.rank a.1 ≤ order.rank b.1)
    (hothers : others.Pairwise fun a b => order.rank a.1 ≤ order.rank b.1)
    (h : ∀ name, entries.filter (named order name) = others.filter (named order name)) :
    entries = others := by
  induction entries generalizing others with
  | nil =>
    refine (List.eq_nil_iff_forall_not_mem.mpr fun entry hentry => ?_).symm
    exact List.not_mem_nil ((mem_iff_of_filter_eq h entry).mpr hentry)
  | cons entry entries ih =>
    have hmem := mem_iff_of_filter_eq h
    cases others with
    | nil => exact absurd ((hmem entry).mp List.mem_cons_self) List.not_mem_nil
    | cons other others =>
      have hle := rank_le_of_mem hentries ((hmem other).mpr List.mem_cons_self)
      have hge := rank_le_of_mem hothers ((hmem entry).mp List.mem_cons_self)
      -- Both lists start with the same name, and with the first entry of it.
      have hsame : named order entry.1 other = true := by
        rw [named, beq_iff_eq]
        exact Std.le_antisymm hge hle
      have hheads := h entry.1
      rw [List.filter_cons_of_pos (named_self order entry.1 entry.2),
        List.filter_cons_of_pos hsame] at hheads
      obtain ⟨rfl, -⟩ := List.cons.inj hheads
      -- One entry of that name is taken off on both sides, and those of other names are as before.
      have htails (name : Bytes) :
          entries.filter (named order name) = others.filter (named order name) := by
        have hname := h name
        rw [List.filter_cons, List.filter_cons] at hname
        split at hname
        · exact (List.cons.inj hname).2
        · exact hname
      rw [ih (List.pairwise_cons.mp hentries).2 (List.pairwise_cons.mp hothers).2 htails]

/-- Does the name of an entry not come behind that of another one? -/
def notBehind (order : KeyOrder) (a b : Bytes × Bytes) : Bool :=
  decide (order.rank a.1 ≤ order.rank b.1)

/-- The order by which the list is sorted is transitive, as that of the keys is. -/
theorem notBehind_trans (a b c : Bytes × Bytes) (hab : notBehind order a b = true)
    (hbc : notBehind order b c = true) : notBehind order a c = true := by
  rw [notBehind, decide_eq_true_iff] at *
  exact Std.le_trans hab hbc

/-- It is total for the same reason, so sorting puts any two entries in some order. -/
theorem notBehind_total (a b : Bytes × Bytes) :
    (notBehind order a b || notBehind order b a) = true := by
  simp only [notBehind, Bool.or_eq_true, decide_eq_true_iff]
  exact Std.le_total

/-- Sorting moves no entry past another one of its name. This is the stability of the sort: a sublist that
is in order already, as the entries of one name are, remains a sublist. -/
theorem filter_named_mergeSort (listed : List (Bytes × Bytes)) (name : Bytes) :
    (listed.mergeSort (notBehind order)).filter (named order name)
      = listed.filter (named order name) := by
  have hnamed : (listed.filter (named order name)).Pairwise fun a b => notBehind order a b = true := by
    refine List.pairwise_of_forall_mem_list fun a ha b hb => ?_
    have ha := (List.mem_filter.mp ha).2
    have hb := (List.mem_filter.mp hb).2
    rw [named, beq_iff_eq] at ha hb
    rw [notBehind, decide_eq_true_iff, ha, hb]
    exact Std.le_refl _
  -- So they are found in the sorted list in their order, and by their number they are all that is found.
  have hsublist := (List.sublist_mergeSort notBehind_trans notBehind_total hnamed
    List.filter_sublist).filter (named order name)
  rw [List.filter_filter] at hsublist
  simp only [Bool.and_self] at hsublist
  have hperm := (List.mergeSort_perm listed (notBehind order)).filter (named order name)
  exact (hsublist.eq_of_length hperm.length_eq.symm).symm

/-- **A collection with the entries of a list, those of each name in order, is the stable sort of the
list.** Both ascend by name and have the same entries of each name. -/
theorem entries_eq_mergeSort
    (h : ∀ name, fields.entries.filter (named order name) = listed.filter (named order name)) :
    fields.entries = listed.mergeSort (notBehind order) := by
  refine eq_of_ascending (ascending_entries fields) ?_ fun name => ?_
  · refine (List.pairwise_mergeSort notBehind_trans notBehind_total listed).imp fun {a b} hab => ?_
    exact decide_eq_true_iff.mp hab
  · rw [h, filter_named_mergeSort]

end

end Fields

end SigV4
