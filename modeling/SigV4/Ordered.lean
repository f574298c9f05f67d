/-!
# Stable sorting by insertion

An element is inserted behind the elements that it does not precede, so equal elements keep the
order in which they came.
-/

namespace SigV4.Ordered

variable {α : Type}

/-- Inserts `x` in front of the first element that it precedes. -/
def insert (before : α → α → Bool) (x : α) : List α → List α
  | [] => [x]
  | y :: ys => if before x y then x :: y :: ys else y :: insert before x ys

/-- The stable sort: the elements are inserted one after the other. -/
def sort (before : α → α → Bool) (xs : List α) : List α :=
  xs.foldl (fun sorted x => insert before x sorted) []

/-- No element precedes one in front of it. -/
def Sorted (before : α → α → Bool) (xs : List α) : Prop := xs.Pairwise fun x y => before y x = false

theorem mem_insert {before : α → α → Bool} {x z : α} {xs : List α} :
    z ∈ insert before x xs ↔ z = x ∨ z ∈ xs := by
  induction xs with
  | nil => simp [insert]
  | cons y ys ih =>
    simp only [insert]
    split
    · simp
    · simp only [List.mem_cons, ih, or_left_comm]

/-- Insertion keeps a list sorted by any order in which precedence is asymmetric and in which what
precedes an element also precedes the elements behind it. -/
theorem sorted_insert {before : α → α → Bool}
    (asymm : ∀ x y, before x y = true → before y x = false)
    (trans : ∀ x y z, before x y = true → before z y = false → before z x = false)
    {x : α} {xs : List α} (h : Sorted before xs) : Sorted before (insert before x xs) := by
  induction xs with
  | nil => simp [insert, Sorted]
  | cons y ys ih =>
    obtain ⟨hy, hys⟩ := List.pairwise_cons.mp h
    simp only [insert]
    split
    next hxy =>
      refine List.pairwise_cons.mpr ⟨fun z hz => ?_, h⟩
      rcases List.mem_cons.mp hz with rfl | hz
      · exact asymm _ _ hxy
      · exact trans _ _ _ hxy (hy z hz)
    next hxy =>
      refine List.pairwise_cons.mpr ⟨fun z hz => ?_, ih hys⟩
      rcases mem_insert.mp hz with rfl | hz
      · simpa using hxy
      · exact hy z hz

end SigV4.Ordered
