import Mathlib.Order.Defs.Unbundled
import SigV4.Fields

/-!
# Orders of names are strict weak orders

A sorted collection needs an order that is irreflexive and transitive, and in which names that do not
precede each other form classes. Any order that compares names by a key is one, and its classes are the
names of one key:

* **`KeyOrder.isStrictWeakOrder`**, **`KeyOrder.incomparable_iff`**: for every such order.
* **`precedes_strictWeakOrder`**: the walk over two names is such an order, its key the lower-cased name.
-/

namespace SigV4

namespace KeyOrder

variable (order : KeyOrder)

/-- Names that do not precede each other are one name. For the keys this is antisymmetry of a linear order,
read through the two negations. -/
theorem incomparable_iff (a b : Bytes) :
    (¬ order.before a b = true ∧ ¬ order.before b a = true) ↔ order.rank a = order.rank b := by
  rw [order.before_iff, order.before_iff]
  constructor
  · rintro ⟨hab, hba⟩
    exact Std.le_antisymm (List.not_lt.mp hba) (List.not_lt.mp hab)
  · intro hrank
    rw [hrank]
    exact ⟨Std.lt_irrefl, Std.lt_irrefl⟩

/-- An order by keys inherits all three laws from the order of the keys. Transitivity of incomparability is
the one that fails for orders in general, and here it is transitivity of equality (`incomparable_iff`). -/
theorem isStrictWeakOrder : IsStrictWeakOrder Bytes fun a b => order.before a b = true where
  irrefl a h := by
    rw [order.before_iff] at h
    exact Std.lt_irrefl h
  trans a b c hab hbc := by
    rw [order.before_iff] at hab hbc ⊢
    exact Std.lt_trans hab hbc
  incomp_trans a b c hab hbc := by
    rw [incomparable_iff] at hab hbc ⊢
    exact hab.trans hbc

end KeyOrder

/-- **Header names are ordered as their lower-cased forms are**, byte by byte without a sign, and names are
one name exactly if these forms are the same. -/
theorem precedes_strictWeakOrder :
    (∀ a b, precedes a b = true ↔ toLower a < toLower b)
      ∧ IsStrictWeakOrder Bytes (fun a b => precedes a b = true)
      ∧ ∀ a b, (¬ precedes a b = true ∧ ¬ precedes b a = true) ↔ toLower a = toLower b :=
  ⟨fun _ _ => precedes_iff, KeyOrder.caseInsensitive.isStrictWeakOrder,
    KeyOrder.caseInsensitive.incomparable_iff⟩

/-- Bytes above 127 come behind all letters, and a name comes in front of those that it starts. -/
example : precedes (ascii "X-Date") [120, 45, 200] = true
    ∧ precedes (ascii "x-AMZ") (ascii "X-amz-Date") = true
    ∧ precedes (ascii "X-Date") (ascii "x-dATE") = false := by decide

end SigV4
