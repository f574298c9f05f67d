import SigV4.Proofs.InsertionOrder
import SigV4.Request

/-!
# Headers behave as a list that is edited

A request holds its headers sorted by name. Whoever edits them can still think of a plain list, to which a
header is added at the end and from which all headers of a name are taken out, letter case aside
(`HeaderEdit.onList`). The two agree on the headers of each name (`HeaderEdit.Agree`), and a sorted
collection is determined by these:

* **`HeaderEdit.Agree.apply`**: one edit does the same on both sides.
* **`HeaderEdit.outside_apply`**: it does not see the headers of other names.
* **`HeaderEdit.agree_edited`**: the run, from a request without headers.
* **`HeaderEdit.edited_lists`**: so the headers are the stable sort of the list, and lookups and the written
  head tell what stands in it.
-/

namespace SigV4

/-! ## Edits -/

/-- An edit of the headers of a request. -/
inductive HeaderEdit where
  | add (name value : Bytes)
  | set (name value : Bytes)
  | remove (name : Bytes)

namespace HeaderEdit

variable {σ : Type}

/-- The name whose headers are edited. -/
def name : HeaderEdit → Bytes
  | add name _ => name
  | set name _ => name
  | remove name => name

def apply (request : Request σ) : HeaderEdit → Request σ
  | add name value => { request with headers := request.headers.add name value }
  | set name value => request.setHeader name value
  | remove name => request.removeHeader name

/-- The headers of other names, letter case aside. -/
def outside (name : Bytes) (listed : List (Bytes × Bytes)) : List (Bytes × Bytes) :=
  listed.filter fun header => toLower header.1 != toLower name

/-- What an edit makes of a plain list. -/
def onList (listed : List (Bytes × Bytes)) : HeaderEdit → List (Bytes × Bytes)
  | add name value => listed ++ [(name, value)]
  | set name value => outside name listed ++ [(name, value)]
  | remove name => outside name listed

/-- The request after these edits, which start without headers. -/
def edited (request : Request σ) (edits : List HeaderEdit) : Request σ :=
  edits.foldl apply { request with headers := ∅ }

/-- The list after these edits, which start with nothing. -/
def listing (edits : List HeaderEdit) : List (Bytes × Bytes) := edits.foldl onList []

/-- The headers of a name stand in a request as they stand in a list. -/
def Agree (request : Request σ) (listed : List (Bytes × Bytes)) : Prop :=
  ∀ name, request.headers.entries.filter (Fields.named .caseInsensitive name)
    = listed.filter (Fields.named .caseInsensitive name)

variable {request : Request σ} {listed : List (Bytes × Bytes)}

/-! ## One edit

An edit of the collection and the same edit of the list agree for every name. -/

/-- A header that is added comes last of its name on both sides, and the headers of other names see nothing.
-/
theorem Agree.add (h : Agree request listed) (name value : Bytes) :
    Agree { request with headers := request.headers.add name value } (listed ++ [(name, value)]) := by
  intro other
  show (request.headers.add name value).entries.filter _ = _
  rw [Fields.filter_named_add, h, List.filter_append]

/-- Removing a name leaves the same headers of each other name on both sides, and of the name itself none.
-/
theorem Agree.remove (h : Agree request listed) (name : Bytes) :
    Agree (request.removeHeader name) (outside name listed) := by
  intro other
  show (request.headers.erase name).entries.filter _ = _
  rw [Fields.filter_named_erase, h, outside, List.filter_filter, List.filter_filter]
  simp only [Bool.and_comm]
  rfl

/-- **An edit does to a request what it does to the list.** To set a header is to remove its name and to add
it, on both sides. -/
theorem Agree.apply (h : Agree request listed) (edit : HeaderEdit) :
    Agree (edit.apply request) (edit.onList listed) := by
  cases edit with
  | add name value => exact h.add name value
  | set name value => exact (h.remove name).add name value
  | remove name => exact h.remove name

/-- An edit does not see the headers of other names. -/
theorem outside_apply (request : Request σ) (edit : HeaderEdit) :
    outside edit.name (edit.apply request).headers.entries
      = outside edit.name request.headers.entries := by
  -- What the edit adds or takes out has the name that it is about.
  have hown : ∀ entry, Fields.named .caseInsensitive edit.name entry = true →
      (toLower entry.1 != toLower edit.name) = false := by
    intro entry hentry
    have hrank : toLower entry.1 = toLower edit.name := beq_iff_eq.mp hentry
    rw [hrank, bne_self_eq_false]
  cases edit with
  | add name value => exact Fields.filter_add hown request.headers value
  | set name value => exact Fields.filter_set hown request.headers value
  | remove name => exact Fields.filter_erase hown request.headers

/-! ## All edits -/

/-- The run, by induction on the edits. Both sides change in each step, so the induction speaks of any
request and list that agree. -/
theorem agree_foldl (h : Agree request listed) (edits : List HeaderEdit) :
    Agree (edits.foldl apply request) (edits.foldl onList listed) := by
  induction edits generalizing request listed with
  | nil => exact h
  | cons edit edits ih => exact ih (h.apply edit)

/-- A request without headers agrees with the empty list, and so all that is made of them does. -/
theorem agree_edited (request : Request σ) (edits : List HeaderEdit) :
    Agree (edited request edits) (listing edits) :=
  agree_foldl (fun _ => rfl) edits

/-- Nothing but the headers is edited, so the lines of the head other than header lines are those of the
request from which the edits started. -/
theorem foldl_apply_eq (request : Request σ) (edits : List HeaderEdit) :
    edits.foldl apply request = { request with headers := (edits.foldl apply request).headers } := by
  induction edits generalizing request with
  | nil => rfl
  | cons edit edits ih =>
    show edits.foldl apply (edit.apply request) = _
    rw [ih]
    cases edit <;> rfl

/-- What is seen of a request whose headers were put down in this list. -/
structure Lists (request edited : Request σ) (listed : List (Bytes × Bytes)) : Prop where
  /-- The headers are the list, sorted by lower-cased names, and headers of one name as they stand there. -/
  sorted : edited.headers.entries = listed.mergeSort fun a b => decide (toLower a.1 ≤ toLower b.1)
  /-- A lookup finds the value that was put down first. -/
  first : ∀ name, edited.headers.get? name
    = (listed.find? fun header => toLower header.1 == toLower name).map (·.2)
  missing : ∀ name, edited.headers.get? name = none
    ↔ ∀ header ∈ listed, toLower header.1 ≠ toLower name
  present : ∀ name, edited.headers.contains name = true
    ↔ ∃ header ∈ listed, toLower header.1 = toLower name
  /-- The head has a line for each header, with its name as it was spelled. -/
  head : edited.head = request.method.text ++ ascii " " ++ request.target ++ ascii " " ++ request.version.text
    ++ crlf
    ++ (listed.mergeSort fun a b => decide (toLower a.1 ≤ toLower b.1)).flatMap
      (fun header => header.1 ++ ascii ": " ++ header.2 ++ crlf)
    ++ crlf
  /-- Another edit leaves the headers of other names as they are, and in their order. -/
  others : ∀ edit : HeaderEdit,
    (edit.apply edited).headers.entries.filter (fun header => toLower header.1 != toLower edit.name)
      = edited.headers.entries.filter fun header => toLower header.1 != toLower edit.name

/-- **Headers behave as a list** to which they are added at the end, and from which all of a name are taken.
The list keeps the order of the calls and the collection that of the names, so they agree up to a stable
sort, and what is asked by name is the same of both. -/
theorem edited_lists (request : Request σ) (edits : List HeaderEdit) :
    Lists request (edited request edits) (listing edits) := by
  have hagree := agree_edited request edits
  have hsorted : (edited request edits).headers.entries
      = (listing edits).mergeSort fun a b => decide (toLower a.1 ≤ toLower b.1) :=
    Fields.entries_eq_mergeSort hagree
  -- The first header of a name is the first of those that a filter keeps.
  have hfirst (name : Bytes) : (edited request edits).headers.get? name
      = ((listing edits).find? fun header => toLower header.1 == toLower name).map (·.2) := by
    rw [Fields.get?, ← List.head?_filter, hagree, List.head?_filter]
    rfl
  have hmem (header : Bytes × Bytes) :
      header ∈ (edited request edits).headers.entries ↔ header ∈ listing edits :=
    Fields.mem_iff_of_filter_eq hagree header
  exact {
    sorted := hsorted
    first := hfirst
    missing := fun name => by simp [hfirst]
    present := fun name => by simp [Fields.contains, Fields.named, hmem, KeyOrder.caseInsensitive]
    head := by
      have honly := foldl_apply_eq { request with headers := ∅ } edits
      rw [← hsorted]
      show (edits.foldl apply { request with headers := ∅ }).head = _
      rw [honly]
      rfl
    others := outside_apply (edited request edits) }

/-- Setting a name takes its other spelling out, and what is added later stands behind it. -/
example :
    let edits : List HeaderEdit := [.add (ascii "x-b") (ascii "1"), .add (ascii "X-A") (ascii "2"),
      .add (ascii "x-a") (ascii "3"), .set (ascii "X-B") (ascii "4"), .add (ascii "x-B") (ascii "5")]
    (edited ({} : Request MemorySource) edits).headers.entries
      = [(ascii "X-A", ascii "2"), (ascii "x-a", ascii "3"), (ascii "X-B", ascii "4"),
        (ascii "x-B", ascii "5")] := by
  decide +kernel

end HeaderEdit

end SigV4
