import SigV4.Ordered
import SigV4.Text

/-!
# Named fields

Headers and query parameters are collections of named values in which a name may occur repeatedly.
A collection is sorted by name at all times and values of one name keep the order in which they
were added. What counts as one name is a matter of the order: header names differ in more than
case, query names in any byte.
-/

namespace SigV4

/-- An order of names, given by a key to which a name is reduced. -/
structure KeyOrder where
  rank : Bytes → Bytes
  before : Bytes → Bytes → Bool
  before_iff : ∀ a b, before a b = true ↔ rank a < rank b

namespace KeyOrder

def caseInsensitive : KeyOrder := ⟨toLower, precedes, fun _ _ => precedes_iff⟩

def bytewise : KeyOrder := ⟨id, fun a b => decide (a < b), by simp⟩

theorem asymm (order : KeyOrder) (a b : Bytes) (h : order.before a b = true) :
    order.before b a = false := by
  rw [order.before_iff] at h
  rw [← Bool.not_eq_true, order.before_iff]
  exact Std.not_gt_of_lt h

theorem le_trans (order : KeyOrder) (a b c : Bytes) (h : order.before a b = true)
    (h' : order.before c b = false) : order.before c a = false := by
  rw [order.before_iff] at h
  rw [← Bool.not_eq_true, order.before_iff] at h' ⊢
  exact fun hca => h' (Std.lt_trans hca h)

end KeyOrder

structure Fields (order : KeyOrder) where
  entries : List (Bytes × Bytes)
  sorted : Ordered.Sorted (fun a b => order.before a.1 b.1) entries

namespace Fields

variable {order : KeyOrder}

instance : EmptyCollection (Fields order) := ⟨⟨[], .nil⟩⟩

instance : Inhabited (Fields order) := ⟨∅⟩

/-- Is this a value of `name`? -/
def named (order : KeyOrder) (name : Bytes) (entry : Bytes × Bytes) : Bool :=
  order.rank entry.1 == order.rank name

/-- Adds a value behind those that the name has. -/
def add (fields : Fields order) (name value : Bytes) : Fields order where
  entries := Ordered.insert (fun a b => order.before a.1 b.1) (name, value) fields.entries
  sorted := Ordered.sorted_insert (fun a b => order.asymm a.1 b.1)
    (fun a b c => order.le_trans a.1 b.1 c.1) fields.sorted

/-- Removes all values of a name. -/
def erase (fields : Fields order) (name : Bytes) : Fields order where
  entries := fields.entries.filter fun entry => !named order name entry
  sorted := fields.sorted.filter _

/-- Replaces all values of a name by one, which also brings its own spelling of the name. -/
def set (fields : Fields order) (name value : Bytes) : Fields order :=
  (fields.erase name).add name value

/-- The values of a name in the order in which they were added. -/
def values (fields : Fields order) (name : Bytes) : List Bytes :=
  (fields.entries.filter (named order name)).map (·.2)

/-- The value of a name that was added first. -/
def get? (fields : Fields order) (name : Bytes) : Option Bytes :=
  (fields.entries.find? (named order name)).map (·.2)

def contains (fields : Fields order) (name : Bytes) : Bool :=
  fields.entries.any (named order name)

def isEmpty (fields : Fields order) : Bool := fields.entries.isEmpty

/-- Adds the values one after the other. -/
def ofList (order : KeyOrder) (entries : List (Bytes × Bytes)) : Fields order :=
  entries.foldl (fun fields (name, value) => fields.add name value) ∅

@[ext] theorem ext_entries {a b : Fields order} (h : a.entries = b.entries) : a = b := by
  cases a; cases b; cases h; rfl

end Fields

abbrev Headers := Fields .caseInsensitive

/-- Query parameters, not encoded. -/
abbrev Queries := Fields .bytewise

end SigV4
