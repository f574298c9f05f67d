import SigV4.Proofs.Collections
import SigV4.Request

/-!
# Edits of a request

Signing sets and removes headers and queries and leaves the rest of a request alone. That is used in
two ways:

* **`Request.Edited`**: a request came from another by edits of fields with given names.
* **`Request.AgreesOff`**: two requests differ at most in fields with given names. An edit that both
  are given settles its name (`AgreesOff.setHeader`, `AgreesOff.removeHeader` and the like), and
  requests that agree off no name are the same (`AgreesOff.eq`).
-/

namespace SigV4

/-- What comes before a name comes before every name that is not smaller. Both orders of names compare
ranks. -/
theorem KeyOrder.lt_of_lt_of_le (order : KeyOrder) {a b c : Bytes} (hab : order.before a b = true)
    (hcb : order.before c b = false) : order.before a c = true := by
  rw [order.before_iff] at hab ⊢
  rw [← Bool.not_eq_true, order.before_iff, List.not_lt] at hcb
  exact Std.lt_of_lt_of_le hab hcb

namespace Ordered

variable {α : Type} {before : α → α → Bool}

/-- What comes before all others is inserted at the front. -/
theorem insert_of_forall {x : α} {xs : List α} (h : ∀ y ∈ xs, before x y = true) :
    insert before x xs = x :: xs := by
  cases xs with
  | nil => rfl
  | cons y ys => rw [insert, if_pos (h y List.mem_cons_self)]

/-- A filter that keeps the inserted element sees it inserted into what it keeps. The list has to be sorted,
as otherwise the place would depend on what is dropped. -/
theorem filter_insert_of_true {p : α → Bool} {x : α} (hx : p x = true)
    (trans : ∀ y z, before x y = true → before z y = false → before x z = true) {xs : List α}
    (hxs : Sorted before xs) :
    (insert before x xs).filter p = insert before x (xs.filter p) := by
  induction xs with
  | nil => simp [insert, hx]
  | cons y ys ih =>
    obtain ⟨hy, hys⟩ := List.pairwise_cons.mp hxs
    rw [insert]
    split
    next hxy =>
      -- Whatever is kept stands behind `x`, whether or not `y` is kept.
      have hbehind : ∀ z ∈ (y :: ys).filter p, before x z = true := by
        intro z hz
        rcases List.mem_cons.mp (List.mem_filter.mp hz).1 with rfl | hz
        · exact hxy
        · exact trans y z hxy (hy z hz)
      rw [List.filter_cons_of_pos hx, insert_of_forall hbehind]
    next hxy =>
      rw [List.filter_cons, List.filter_cons]
      split
      · rw [insert, if_neg hxy, ih hys]
      · exact ih hys

end Ordered

namespace Fields

variable {order : KeyOrder} {a b : Fields order} {name value : Bytes} {names : List Bytes}

/-! ## Leaving names out -/

/-- The fields of other names. -/
def without (fields : Fields order) (names : List Bytes) : Fields order where
  entries := fields.entries.filter fun entry => !names.any (named order · entry)
  sorted := fields.sorted.filter _

@[simp] theorem without_nil (fields : Fields order) : fields.without [] = fields := by
  apply ext_entries
  simp [without]

/-- Erasing a name and leaving others out is leaving all of them out. -/
theorem without_erase (fields : Fields order) (name : Bytes) (names : List Bytes) :
    (fields.erase name).without names = fields.without (name :: names) := by
  apply ext_entries
  simp only [without, erase, List.filter_filter, List.any_cons, Bool.not_or, Bool.and_comm]

/-- A field that is added is left out with its name, or is added to what is left. -/
theorem without_add (fields : Fields order) (name value : Bytes) (names : List Bytes) :
    (fields.add name value).without names
      = if names.any (named order · (name, value)) then fields.without names
        else (fields.without names).add name value := by
  apply ext_entries
  split
  next hany => exact Ordered.filter_insert_of_false _ (by simp [hany]) _
  next hany =>
    have hkept : (!names.any (named order · (name, value))) = true := by simp [hany]
    exact @Ordered.filter_insert_of_true _ (fun a b => order.before a.1 b.1)
      (fun entry => !names.any (named order · entry)) _ hkept
      (fun y z => order.lt_of_lt_of_le) _ fields.sorted

/-- Leaving out more names leaves out what was left out before. -/
theorem without_without {others : List Bytes} (h : names ⊆ others) (fields : Fields order) :
    (fields.without names).without others = fields.without others := by
  apply ext_entries
  simp only [without, List.filter_filter]
  refine List.filter_congr fun entry _ => ?_
  cases hothers : others.any (named order · entry) with
  | true => rfl
  | false =>
    rw [List.any_eq_false] at hothers
    have hnames : names.any (named order · entry) = false :=
      List.any_eq_false.mpr fun name hname => hothers name (h hname)
    rw [hnames]
    rfl

/-- Collections that agree but for some names agree but for more names. -/
theorem without_mono {others : List Bytes} (h : a.without names = b.without names)
    (hnames : names ⊆ others) : a.without others = b.without others := by
  rw [← without_without hnames a, h, without_without hnames b]

/-- A name that is left out already need not be left out again. -/
theorem without_cons_of_mem (hname : name ∈ names) (fields : Fields order) :
    fields.without (name :: names) = fields.without names := by
  apply ext_entries
  refine List.filter_congr fun entry _ => ?_
  rw [List.any_cons]
  cases hnamed : named order name entry with
  | false => rfl
  | true => rw [List.any_eq_true.mpr ⟨name, hname, hnamed⟩]; rfl

/-- Erasing a name on both sides settles it: whatever the values were, none is left. -/
theorem without_erase_congr (h : a.without (name :: names) = b.without (name :: names)) :
    (a.erase name).without names = (b.erase name).without names := by
  rw [without_erase, without_erase, h]

/-- Setting a name to the same value on both sides settles it as well. -/
theorem without_set_congr (h : a.without (name :: names) = b.without (name :: names))
    (value : Bytes) : (a.set name value).without names = (b.set name value).without names := by
  rw [set, set, without_add, without_add, without_erase, without_erase, h]

/-- Leaving out a name that has no value leaves out nothing. -/
theorem erase_of_values_eq_nil (h : a.values name = []) : a.erase name = a := by
  apply ext_entries
  refine List.filter_eq_self.mpr fun entry hentry => ?_
  cases hnamed : named order name entry with
  | false => rfl
  | true =>
    have hmem : entry.2 ∈ a.values name :=
      List.mem_map.mpr ⟨entry, List.mem_filter.mpr ⟨hentry, hnamed⟩, rfl⟩
    rw [h] at hmem
    exact absurd hmem List.not_mem_nil

/-- A filter that keeps no value of the names does not see them left out. -/
theorem filter_without {p : Bytes × Bytes → Bool}
    (hp : ∀ name ∈ names, ∀ entry, named order name entry = true → p entry = false)
    (fields : Fields order) : (fields.without names).entries.filter p = fields.entries.filter p := by
  rw [without, List.filter_filter]
  refine List.filter_congr fun entry _ => ?_
  cases hany : names.any (named order · entry) with
  | false => simp
  | true =>
    obtain ⟨name, hname, hnamed⟩ := List.any_eq_true.mp hany
    simp [hp name hname entry hnamed]

/-! ## Edits

A collection is edited at some names, and what is asked of other names is the same before and after.
-/

/-- The second collection comes from the first by setting and removing fields of these names. -/
inductive EditedAt (names : List Bytes) (fields : Fields order) : Fields order → Prop where
  | refl : EditedAt names fields fields
  | set {edited : Fields order} (name value : Bytes) (h : EditedAt names fields edited)
      (hname : name ∈ names) : EditedAt names fields (edited.set name value)
  | erase {edited : Fields order} (name : Bytes) (h : EditedAt names fields edited)
      (hname : name ∈ names) : EditedAt names fields (edited.erase name)

/-- Edits of some names leave all other fields as they are, with their order. The induction is on the edits.
-/
theorem EditedAt.without_eq (h : EditedAt names a b) : b.without names = a.without names := by
  induction h with
  | refl => rfl
  | @set edited name value _ hname ih =>
    have hany : names.any (named order · (name, value)) = true :=
      List.any_eq_true.mpr ⟨name, hname, named_self order name value⟩
    rw [Fields.set, without_add, if_pos hany, without_erase, without_cons_of_mem hname, ih]
  | @erase edited name _ hname ih => rw [without_erase, without_cons_of_mem hname, ih]

/-- Edits bring no names but their own. -/
theorem EditedAt.forall_names {p : Bytes → Prop} (h : EditedAt names a b)
    (hnames : ∀ name ∈ names, p name) (ha : ∀ entry ∈ a.entries, p entry.1) :
    ∀ entry ∈ b.entries, p entry.1 := by
  induction h with
  | refl => exact ha
  | @set edited name value _ hname ih =>
    intro entry hentry
    rcases Ordered.mem_insert.mp hentry with rfl | hentry
    · exact hnames name hname
    · exact ih entry (List.mem_filter.mp hentry).1
  | @erase edited name _ hname ih =>
    intro entry hentry
    exact ih entry (List.mem_filter.mp hentry).1

theorem EditedAt.trans {c : Fields order} (hab : EditedAt names a b) (hbc : EditedAt names b c) :
    EditedAt names a c := by
  induction hbc with
  | refl => exact hab
  | set name value _ hname ih => exact .set name value ih hname
  | erase name _ hname ih => exact .erase name ih hname

theorem EditedAt.mono {others : List Bytes} (h : EditedAt names a b) (hnames : names ⊆ others) :
    EditedAt others a b := by
  induction h with
  | refl => exact .refl
  | set name value _ hname ih => exact .set name value ih (hnames hname)
  | erase name _ hname ih => exact .erase name ih (hnames hname)

/-- Edits leave the values of other names alone. -/
theorem EditedAt.values_eq (h : EditedAt names a b) {name : Bytes}
    (hname : ∀ other ∈ names, order.rank other ≠ order.rank name) : b.values name = a.values name := by
  have hp : ∀ other ∈ names, ∀ entry, named order other entry = true → named order name entry = false :=
    fun other hother => named_disjoint (hname other hother)
  rw [values, values, ← filter_without hp, h.without_eq, filter_without hp]

end Fields

/-! ## Requests

Headers and queries are edited separately, and the rest of a request not at all. -/

namespace Request

variable {σ : Type} {headers queries : List Bytes} {a b c : Request σ} {name : Bytes}

/-- Edits of these headers and queries make the second request of the first. -/
structure Edited (headers queries : List Bytes) (a b : Request σ) : Prop where
  method : b.method = a.method
  version : b.version = a.version
  path : b.path = a.path
  body : b.body = a.body
  trailers : b.trailers = a.trailers
  headers : a.headers.EditedAt headers b.headers
  queries : a.queries.EditedAt queries b.queries

namespace Edited

theorem refl (headers queries : List Bytes) (a : Request σ) : Edited headers queries a a :=
  ⟨rfl, rfl, rfl, rfl, rfl, .refl, .refl⟩

/-- Edits one after the other are edits, of headers as well as of queries. -/
theorem trans (hab : Edited headers queries a b) (hbc : Edited headers queries b c) :
    Edited headers queries a c where
  method := hbc.method.trans hab.method
  version := hbc.version.trans hab.version
  path := hbc.path.trans hab.path
  body := hbc.body.trans hab.body
  trailers := hbc.trailers.trans hab.trailers
  headers := hab.headers.trans hbc.headers
  queries := hab.queries.trans hbc.queries

/-- The names of the headers may be more than those that were edited. -/
theorem mono {others : List Bytes} (h : Edited headers queries a b) (hheaders : headers ⊆ others) :
    Edited others queries a b :=
  ⟨h.method, h.version, h.path, h.body, h.trailers, h.headers.mono hheaders, h.queries⟩

theorem setHeader (h : Edited headers queries a b) (hname : name ∈ headers) (value : Bytes) :
    Edited headers queries a (b.setHeader name value) :=
  ⟨h.method, h.version, h.path, h.body, h.trailers, .set name value h.headers hname, h.queries⟩

theorem removeHeader (h : Edited headers queries a b) (hname : name ∈ headers) :
    Edited headers queries a (b.removeHeader name) :=
  ⟨h.method, h.version, h.path, h.body, h.trailers, .erase name h.headers hname, h.queries⟩

theorem setQuery (h : Edited headers queries a b) (hname : name ∈ queries) (value : Bytes) :
    Edited headers queries a (b.setQuery name value) :=
  ⟨h.method, h.version, h.path, h.body, h.trailers, h.headers, .set name value h.queries hname⟩

theorem removeQuery (h : Edited headers queries a b) (hname : name ∈ queries) :
    Edited headers queries a (b.removeQuery name) :=
  ⟨h.method, h.version, h.path, h.body, h.trailers, h.headers, .erase name h.queries hname⟩

theorem elimSetHeader (h : Edited headers queries a b) (hname : name ∈ headers)
    (value : Option Bytes) :
    Edited headers queries a (value.elim b fun value => b.setHeader name value) := by
  cases value with
  | none => exact h
  | some value => exact h.setHeader hname value

theorem elimSetQuery (h : Edited headers queries a b) (hname : name ∈ queries)
    (value : Option Bytes) :
    Edited headers queries a (value.elim b fun value => b.setQuery name value) := by
  cases value with
  | none => exact h
  | some value => exact h.setQuery hname value

/-- A header is set under a condition, and its name counts only then. -/
theorem iteSetHeader {p : Prop} [Decidable p] (h : Edited headers queries a b)
    (hname : p → name ∈ headers) (value : Bytes) :
    Edited headers queries a (if p then b.setHeader name value else b) := by
  split
  next hp => exact h.setHeader (hname hp) value
  next => exact h

end Edited

/-- The requests differ at most in these headers and queries. -/
structure AgreesOff (headers queries : List Bytes) (a b : Request σ) : Prop where
  method : a.method = b.method
  version : a.version = b.version
  path : a.path = b.path
  body : a.body = b.body
  trailers : a.trailers = b.trailers
  headers : a.headers.without headers = b.headers.without headers
  queries : a.queries.without queries = b.queries.without queries

/-- A request differs from what edits made of it at most in the names of the edits. -/
theorem Edited.agreesOff (h : Edited headers queries a b) : AgreesOff headers queries b a :=
  ⟨h.method, h.version, h.path, h.body, h.trailers, h.headers.without_eq, h.queries.without_eq⟩

namespace AgreesOff

theorem trans (hab : AgreesOff headers queries a b) (hbc : AgreesOff headers queries b c) :
    AgreesOff headers queries a c where
  method := hab.method.trans hbc.method
  version := hab.version.trans hbc.version
  path := hab.path.trans hbc.path
  body := hab.body.trans hbc.body
  trailers := hab.trailers.trans hbc.trailers
  headers := hab.headers.trans hbc.headers
  queries := hab.queries.trans hbc.queries

theorem mono {headers' queries' : List Bytes} (h : AgreesOff headers queries a b)
    (hheaders : headers ⊆ headers') (hqueries : queries ⊆ queries') :
    AgreesOff headers' queries' a b :=
  ⟨h.method, h.version, h.path, h.body, h.trailers, Fields.without_mono h.headers hheaders,
    Fields.without_mono h.queries hqueries⟩

theorem eq (h : AgreesOff [] [] a b) : a = b := by
  obtain ⟨hmethod, hversion, hpath, hbody, htrailers, hheaders, hqueries⟩ := h
  rw [Fields.without_nil, Fields.without_nil] at hheaders hqueries
  cases a
  cases b
  cases hmethod
  cases hversion
  cases hpath
  cases hbody
  cases htrailers
  cases hheaders
  cases hqueries
  rfl

/-- A header that is set on both sides is settled: whatever the requests had under its name, they have the
same now. -/
theorem setHeader (h : AgreesOff (name :: headers) queries a b) (value : Bytes) :
    AgreesOff headers queries (a.setHeader name value) (b.setHeader name value) :=
  ⟨h.method, h.version, h.path, h.body, h.trailers, Fields.without_set_congr h.headers value,
    h.queries⟩

theorem removeHeader (h : AgreesOff (name :: headers) queries a b) :
    AgreesOff headers queries (a.removeHeader name) (b.removeHeader name) :=
  ⟨h.method, h.version, h.path, h.body, h.trailers, Fields.without_erase_congr h.headers, h.queries⟩

/-- A query that is set on both sides is settled. -/
theorem setQuery (h : AgreesOff headers (name :: queries) a b) (value : Bytes) :
    AgreesOff headers queries (a.setQuery name value) (b.setQuery name value) :=
  ⟨h.method, h.version, h.path, h.body, h.trailers, h.headers,
    Fields.without_set_congr h.queries value⟩

/-- So is a query that is removed on both sides. -/
theorem removeQuery (h : AgreesOff headers (name :: queries) a b) :
    AgreesOff headers queries (a.removeQuery name) (b.removeQuery name) :=
  ⟨h.method, h.version, h.path, h.body, h.trailers, h.headers, Fields.without_erase_congr h.queries⟩

/-- A name without values on both sides is settled. -/
theorem settle (h : AgreesOff (name :: headers) queries a b) (ha : a.headers.values name = [])
    (hb : b.headers.values name = []) : AgreesOff headers queries a b := by
  have hheaders := h.headers
  rw [← Fields.without_erase, ← Fields.without_erase, Fields.erase_of_values_eq_nil ha,
    Fields.erase_of_values_eq_nil hb] at hheaders
  exact ⟨h.method, h.version, h.path, h.body, h.trailers, hheaders, h.queries⟩

/-- What is set on both sides, or on none, need not be settled. -/
theorem elimSetHeader (h : AgreesOff headers queries a b) (name : Bytes) (value : Option Bytes) :
    AgreesOff headers queries (value.elim a fun value => a.setHeader name value)
      (value.elim b fun value => b.setHeader name value) := by
  cases value with
  | none => exact h
  | some value => exact (h.mono (List.subset_cons_self name headers) (List.Subset.refl _)).setHeader value

/-- A query that is set on both sides, or on none, need not be settled either. -/
theorem elimSetQuery (h : AgreesOff headers queries a b) (name : Bytes) (value : Option Bytes) :
    AgreesOff headers queries (value.elim a fun value => a.setQuery name value)
      (value.elim b fun value => b.setQuery name value) := by
  cases value with
  | none => exact h
  | some value => exact (h.mono (List.Subset.refl _) (List.subset_cons_self name queries)).setQuery value

/-- A name that is left open only where it is set on both sides. -/
theorem iteSetHeader {p : Prop} [Decidable p]
    (h : AgreesOff (if p then [name] else []) queries a b) (value : Bytes) :
    AgreesOff [] queries (if p then a.setHeader name value else a)
      (if p then b.setHeader name value else b) := by
  split
  next hp =>
    rw [if_pos hp] at h
    exact h.setHeader value
  next hp => rwa [if_neg hp] at h

end AgreesOff

end Request

end SigV4
