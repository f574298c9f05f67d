import SigV4.Fields

/-!
# Sorted lists and named fields

What an operation on a collection does is said by the values that names have afterwards and by what
a filter keeps:

* **`Ordered.sort_perm`**, **`Ordered.sorted_sort`**: sorting by insertion sorts.
* **`Bytes.sort_eq_sort_iff`**: pairs are sorted to the same list exactly if they are the same, in any
  order.
* **`Fields.values_set_self`**, **`Fields.values_set_of_ne`**: the value that was set is the only one
  of its name, and values of other names are as before.
* **`Fields.get?_eq_some_iff`**: a lookup finds the first value of a name.
* **`Fields.filter_add`**, **`Fields.filter_erase`**, **`Fields.filter_set`**: a filter that keeps no value
  of a name does not see what happens to that name.
-/

namespace SigV4

namespace Ordered

variable {α : Type} (before : α → α → Bool)

/-! ## Insertion -/

theorem insert_perm (x : α) (xs : List α) : (insert before x xs).Perm (x :: xs) := by
  induction xs with
  | nil => exact .refl _
  | cons y ys ih =>
    simp only [insert]
    split
    · exact .refl _
    · exact (ih.cons y).trans (.swap x y ys)

/-- A filter that drops the inserted element keeps what it kept. -/
theorem filter_insert_of_false {p : α → Bool} {x : α} (hx : p x = false) (xs : List α) :
    (insert before x xs).filter p = xs.filter p := by
  induction xs with
  | nil => simp [insert, hx]
  | cons y ys ih =>
    simp only [insert]
    split
    · rw [List.filter_cons_of_neg (by simp [hx])]
    · rw [List.filter_cons, List.filter_cons, ih]

/-- A filter that drops all others keeps the inserted element, wherever it was inserted. -/
theorem filter_insert_of_forall {p : α → Bool} {x : α} {xs : List α} (hx : p x = true)
    (hxs : ∀ y ∈ xs, p y = false) : (insert before x xs).filter p = [x] := by
  have hperm := (insert_perm before x xs).filter p
  have hothers : xs.filter p = [] := List.filter_eq_nil_iff.mpr fun y hy => by simp [hxs y hy]
  rw [List.filter_cons_of_pos hx, hothers] at hperm
  exact List.perm_singleton.mp hperm

/-! ## Sorting -/

/-- Inserting one after the other keeps all elements. The induction is on those that are still to be
inserted, for any list that they are inserted into. -/
theorem foldl_insert_perm (xs sorted : List α) :
    (xs.foldl (fun sorted x => insert before x sorted) sorted).Perm (xs ++ sorted) := by
  induction xs generalizing sorted with
  | nil => exact .refl _
  | cons x xs ih =>
    have hrest := ih (insert before x sorted)
    have hinsert := (insert_perm before x sorted).append_left xs
    exact hrest.trans (hinsert.trans List.perm_middle)

theorem sort_perm (xs : List α) : (sort before xs).Perm xs := by
  simpa [sort] using foldl_insert_perm before xs []

/-- Sorting sorts, for an order that is asymmetric and in which what does not come before an element does
not come before a smaller one either. Each insertion keeps the list sorted. -/
theorem sorted_sort {before : α → α → Bool}
    (asymm : ∀ x y, before x y = true → before y x = false)
    (trans : ∀ x y z, before x y = true → before z y = false → before z x = false) (xs : List α) :
    Sorted before (sort before xs) := by
  have hfold (sorted : List α) (hsorted : Sorted before sorted) :
      Sorted before (xs.foldl (fun sorted x => insert before x sorted) sorted) := by
    induction xs generalizing sorted with
    | nil => exact hsorted
    | cons x xs ih => exact ih _ (sorted_insert asymm trans hsorted)
  exact hfold [] .nil

end Ordered

/-! ## The order of pairs -/

namespace Bytes

/-- Pairs are ordered by their names, and pairs of one name by their values. -/
theorem pairBefore_iff {a b : Bytes × Bytes} :
    pairBefore a b = true ↔ a.1 < b.1 ∨ a.1 = b.1 ∧ a.2 < b.2 := by
  simp [pairBefore]

theorem pairBefore_asymm (a b : Bytes × Bytes) (h : pairBefore a b = true) :
    pairBefore b a = false := by
  rw [← Bool.not_eq_true, pairBefore_iff]
  rintro (hba | ⟨hba, hba'⟩)
  · rcases pairBefore_iff.mp h with hab | ⟨hab, -⟩
    · exact Std.not_gt_of_lt hab hba
    · rw [hab] at hba
      exact Std.lt_irrefl hba
  · rcases pairBefore_iff.mp h with hab | ⟨-, hab⟩
    · rw [hba] at hab
      exact Std.lt_irrefl hab
    · exact Std.not_gt_of_lt hab hba'

/-- The order of pairs is transitive, as both orders of bytes are. -/
theorem pairBefore_trans {a b c : Bytes × Bytes} (hab : pairBefore a b = true)
    (hbc : pairBefore b c = true) : pairBefore a c = true := by
  rw [pairBefore_iff] at *
  rcases hab with hab | ⟨hab, hab'⟩ <;> rcases hbc with hbc | ⟨hbc, hbc'⟩
  · exact .inl (Std.lt_trans hab hbc)
  · exact .inl (hbc ▸ hab)
  · exact .inl (hab ▸ hbc)
  · exact .inr ⟨hab.trans hbc, Std.lt_trans hab' hbc'⟩

/-- Pairs are sorted by names and values. -/
theorem sorted_sort_pairs (pairs : List (Bytes × Bytes)) :
    Ordered.Sorted pairBefore (Ordered.sort pairBefore pairs) := by
  refine Ordered.sorted_sort pairBefore_asymm (fun a b c hab hcb => ?_) pairs
  rw [← Bool.not_eq_true] at hcb ⊢
  exact fun hca => hcb (pairBefore_trans hca hab)

/-- What does not come behind comes before or is the same: the order of pairs is total. -/
theorem not_pairBefore_iff {a b : Bytes × Bytes} :
    pairBefore b a = false ↔ a.1 < b.1 ∨ a.1 = b.1 ∧ a.2 ≤ b.2 := by
  rw [← Bool.not_eq_true, pairBefore_iff, not_or, not_and]
  constructor
  · rintro ⟨hname, hvalue⟩
    have hle : a.1 ≤ b.1 := List.not_lt.mp hname
    by_cases heq : a.1 = b.1
    · exact .inr ⟨heq, List.not_lt.mp (hvalue heq.symm)⟩
    · exact .inl (Std.lt_of_le_of_ne hle heq)
  · rintro (hlt | ⟨heq, hle⟩)
    · refine ⟨Std.not_gt_of_lt hlt, fun heq => ?_⟩
      rw [heq] at hlt
      exact absurd hlt Std.lt_irrefl
    · rw [heq]
      exact ⟨Std.lt_irrefl, fun _ => List.not_lt.mpr hle⟩

/-- Pairs neither of which comes before the other are the same. So the order leaves nothing of a pair open.
-/
theorem eq_of_not_pairBefore {a b : Bytes × Bytes} (hab : pairBefore a b = false)
    (hba : pairBefore b a = false) : a = b := by
  rw [← Bool.not_eq_true, pairBefore_iff, not_or, not_and] at hab hba
  have hname : a.1 = b.1 := Std.le_antisymm (List.not_lt.mp hba.1) (List.not_lt.mp hab.1)
  have hvalue : a.2 = b.2 :=
    Std.le_antisymm (List.not_lt.mp (hba.2 hname.symm)) (List.not_lt.mp (hab.2 hname))
  exact Prod.ext hname hvalue

/-- The order in which pairs come does not matter to their sorted list, and nothing else is lost. A sorted
list of a total order is determined by its elements. -/
theorem sort_eq_sort_iff {pairs others : List (Bytes × Bytes)} :
    Ordered.sort pairBefore others = Ordered.sort pairBefore pairs ↔ others.Perm pairs := by
  have hothers := Ordered.sort_perm pairBefore others
  have hpairs := Ordered.sort_perm pairBefore pairs
  constructor
  · intro heq
    rw [heq] at hothers
    exact hothers.symm.trans hpairs
  · intro hperm
    have hsorted := hothers.trans (hperm.trans hpairs.symm)
    exact hsorted.eq_of_pairwise (fun a b _ _ hab hba => eq_of_not_pairBefore hba hab)
      (sorted_sort_pairs others) (sorted_sort_pairs pairs)

end Bytes

namespace Fields

variable {order : KeyOrder}

theorem named_self (order : KeyOrder) (name value : Bytes) : named order name (name, value) = true := by
  simp [named]

/-! ## What filters keep -/

/-- A filter that keeps no value of a name does not see that all its values are gone. -/
theorem filter_erase {p : Bytes × Bytes → Bool} {name : Bytes}
    (hp : ∀ entry, named order name entry = true → p entry = false) (fields : Fields order) :
    (fields.erase name).entries.filter p = fields.entries.filter p := by
  rw [erase, List.filter_filter]
  refine List.filter_congr fun entry _ => ?_
  cases hnamed : named order name entry with
  | true => simp [hp entry hnamed]
  | false => simp

/-- A filter that keeps no value of a name does not see that one is added. -/
theorem filter_add {p : Bytes × Bytes → Bool} {name : Bytes}
    (hp : ∀ entry, named order name entry = true → p entry = false) (fields : Fields order)
    (value : Bytes) : (fields.add name value).entries.filter p = fields.entries.filter p := by
  have hadded : p (name, value) = false := hp (name, value) (named_self order name value)
  exact Ordered.filter_insert_of_false _ hadded fields.entries

/-- A filter that keeps no value of a name does not see which value is set. -/
theorem filter_set {p : Bytes × Bytes → Bool} {name : Bytes}
    (hp : ∀ entry, named order name entry = true → p entry = false) (fields : Fields order)
    (value : Bytes) : (fields.set name value).entries.filter p = fields.entries.filter p := by
  rw [set, filter_add hp, filter_erase hp]

/-! ## The values of a name

All that is asked of a collection is asked by name. These lemmas say what remains of the values of a
name when another one is set or erased. -/

theorem get?_eq_head? (fields : Fields order) (name : Bytes) :
    fields.get? name = (fields.values name).head? := by
  rw [get?, values, List.head?_map, List.head?_filter]

/-- No value has this name. -/
def Lacks (fields : Fields order) (name : Bytes) : Prop :=
  ∀ entry ∈ fields.entries, order.rank entry.1 ≠ order.rank name

/-- This is the first value of a name. -/
def First (fields : Fields order) (name value : Bytes) : Prop :=
  ∃ before key behind, fields.entries = before ++ (key, value) :: behind
    ∧ order.rank key = order.rank name ∧ ∀ entry ∈ before, order.rank entry.1 ≠ order.rank name

/-- A lookup finds nothing exactly if no value has the name. -/
theorem get?_eq_none_iff {fields : Fields order} {name : Bytes} :
    fields.get? name = none ↔ fields.Lacks name := by
  simp [get?, named, Lacks]

/-- A lookup finds the first value of the name, in whatever spelling it was given. -/
theorem get?_eq_some_iff {fields : Fields order} {name value : Bytes} :
    fields.get? name = some value ↔ fields.First name value := by
  rw [get?, Option.map_eq_some_iff]
  constructor
  · rintro ⟨⟨key, _⟩, hfind, rfl⟩
    obtain ⟨hkey, before, behind, hentries, hbefore⟩ := List.find?_eq_some_iff_append.mp hfind
    refine ⟨before, key, behind, hentries, by simpa [named] using hkey, ?_⟩
    intro entry hentry
    simpa [named] using hbefore entry hentry
  · rintro ⟨before, key, behind, hentries, hkey, hbefore⟩
    refine ⟨(key, value), List.find?_eq_some_iff_append.mpr ⟨?_, before, behind, hentries, ?_⟩, rfl⟩
    · simpa [named] using hkey
    · intro entry hentry
      simpa [named] using hbefore entry hentry

/-- Two spellings of a name have the same values, as names are compared by their rank only. -/
theorem values_eq_of_rank_eq {name other : Bytes} (h : order.rank name = order.rank other)
    (fields : Fields order) : fields.values name = fields.values other := by
  have hnamed : named order name = named order other := by
    funext entry
    rw [named, named, h]
  rw [values, values, hnamed]

theorem values_set_self (fields : Fields order) (name value : Bytes) :
    (fields.set name value).values name = [value] := by
  -- Of the values that the name had none is left to stand beside the new one.
  have hothers : ∀ entry ∈ (fields.erase name).entries, named order name entry = false := by
    intro entry hentry
    simpa using (List.mem_filter.mp hentry).2
  have hfilter := Ordered.filter_insert_of_forall (fun a b => order.before a.1 b.1)
    (named_self order name value) hothers
  exact congrArg (List.map (·.2)) hfilter

theorem values_erase_self (fields : Fields order) (name : Bytes) :
    (fields.erase name).values name = [] := by
  rw [values, List.map_eq_nil_iff, erase, List.filter_filter]
  refine List.filter_eq_nil_iff.mpr fun entry _ => ?_
  simp

theorem named_disjoint {name other : Bytes} (h : order.rank name ≠ order.rank other)
    (entry : Bytes × Bytes) (hentry : named order name entry = true) :
    named order other entry = false := by
  have hrank : order.rank entry.1 = order.rank name := by simpa [named] using hentry
  simpa [named, hrank] using h

/-- Setting a value leaves those of other names as they are, with their order. -/
theorem values_set_of_ne {name other : Bytes} (h : order.rank name ≠ order.rank other)
    (fields : Fields order) (value : Bytes) :
    (fields.set name value).values other = fields.values other := by
  rw [values, values, filter_set (named_disjoint h)]

theorem values_erase_of_ne {name other : Bytes} (h : order.rank name ≠ order.rank other)
    (fields : Fields order) : (fields.erase name).values other = fields.values other := by
  rw [values, values, filter_erase (named_disjoint h)]

end Fields

end SigV4
