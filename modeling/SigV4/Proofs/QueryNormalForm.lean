import SigV4.Proofs.Target
import Mathlib.Data.List.Perm.Basic
import Mathlib.Data.Prod.Basic

/-!
# The canonical query is a normal form

Two queries have the same canonical form exactly if they hold the same parameters, each as often in one
as in the other (`canonicalQuery_normal_form`). It takes three steps, none of which loses or adds
anything:

* **`Percent.encodePair_injective`**: encoded parameters are the same only if the parameters are.
* **`Bytes.sort_eq_sort_iff`**: sorted lists are the same only if they are sorted from the same pairs. The
  order is that of the encoded pairs, which is neither that of the parameters nor that of the texts.
* **`joinPairs_injective`**: a reader finds the pairs again in the joined text, where no query at all is
  told from the query with one empty parameter by the `=` that every parameter has.
-/

namespace SigV4

/-- A parameter as it stands in a query. -/
def Percent.encodePair (query : Bytes × Bytes) : Bytes × Bytes := (encode query.1, encode query.2)

/-- Parameters can be told by their encodings, name by name and value by value. -/
theorem Percent.encodePair_injective : Function.Injective encodePair := by
  have hencode : Function.Injective encode := fun _ _ => encode_injective
  exact hencode.prodMap hencode

namespace Canonical

open Bytes Percent

/-! ## The joined text -/

/-- Only no parameters at all are joined to the empty text. -/
theorem joinPairs_eq_nil_iff {pairs : List (Bytes × Bytes)} : joinPairs pairs = [] ↔ pairs = [] := by
  constructor
  · intro h
    cases pairs with
    | nil => rfl
    | cons pair pairs =>
      -- Every pair has a `=` at least.
      have hmem : 61 ∈ joinPairs (pair :: pairs) := by
        simp [joinPairs, join, show ascii "=" = [61] from rfl]
      rw [h] at hmem
      exact absurd hmem List.not_mem_nil
  · rintro rfl
    rfl

/-- Pairs can be told by their joined text, if names and values have no separators. A reader finds them
again, and no pairs are a case of their own, for which the reader does not speak. -/
theorem joinPairs_injective {pairs others : List (Bytes × Bytes)}
    (hpairs : ∀ pair ∈ pairs, Separable pair) (hothers : ∀ pair ∈ others, Separable pair)
    (h : joinPairs pairs = joinPairs others) : pairs = others := by
  by_cases hnil : pairs = []
  · have hjoined := joinPairs_eq_nil_iff.mpr hnil
    rw [h, joinPairs_eq_nil_iff] at hjoined
    rw [hnil, hjoined]
  · have hne : others ≠ [] := by
      intro hothers
      exact hnil (joinPairs_eq_nil_iff.mp (h.trans (joinPairs_eq_nil_iff.mpr hothers)))
    have hread := queryPairs?_joinPairs hnil hpairs
    rw [h, queryPairs?_joinPairs hne hothers] at hread
    exact (Option.some.inj hread).symm

/-! ## Canonical queries

The signed pairs are encoded and sorted, so what is left of them is which pairs there are and how
often. -/

/-- The parameters that are signed, as they stand in a query. -/
def signedEncodings (queries : Queries) (presigned : Bool) : List (Bytes × Bytes) :=
  (signedPairs queries.entries presigned).map encodePair

/-- Encoded parameters have no separators. -/
theorem separable_of_mem_signedEncodings {queries : Queries} {presigned : Bool} :
    ∀ pair ∈ signedEncodings queries presigned, Separable pair := by
  intro pair hpair
  obtain ⟨query, -, rfl⟩ := List.mem_map.mp hpair
  exact separable_encoded query

/-- A canonical query is the joined text of the sorted encodings. -/
theorem canonicalQuery_eq_joinPairs (queries : Queries) (presigned : Bool) :
    canonicalQuery queries presigned
      = joinPairs (Ordered.sort pairBefore (signedEncodings queries presigned)) := rfl

/-- Two canonical queries are the same exactly if the parameters are that are signed, up to their order.
Each step of the canonicalisation is undone in turn. -/
theorem canonicalQuery_eq_iff (queries others : Queries) (presigned : Bool) :
    canonicalQuery queries presigned = canonicalQuery others presigned
      ↔ (signedPairs queries.entries presigned).Perm (signedPairs others.entries presigned) := by
  have hseparable (queries : Queries) :
      ∀ pair ∈ Ordered.sort pairBefore (signedEncodings queries presigned), Separable pair :=
    fun pair hpair => separable_of_mem_signedEncodings pair
      ((Ordered.sort_perm pairBefore _).mem_iff.mp hpair)
  calc canonicalQuery queries presigned = canonicalQuery others presigned
    _ ↔ Ordered.sort pairBefore (signedEncodings queries presigned)
          = Ordered.sort pairBefore (signedEncodings others presigned) :=
      ⟨joinPairs_injective (hseparable queries) (hseparable others), congrArg joinPairs⟩
    _ ↔ (signedEncodings queries presigned).Perm (signedEncodings others presigned) :=
      sort_eq_sort_iff
    _ ↔ (signedPairs queries.entries presigned).Perm (signedPairs others.entries presigned) :=
      List.map_perm_map_iff encodePair_injective

/-- **The canonical query is a normal form of the parameters.** Two queries have the same one exactly if
they hold the same parameters, in whatever order these were added, where a signature that a presigned
request has got already does not count. It is the text of the encoded parameters, sorted byte by byte
by encoded name and then by encoded value. -/
theorem canonicalQuery_normal_form (queries others : Queries) (presigned : Bool) :
    (canonicalQuery queries presigned = canonicalQuery others presigned
      ↔ (queries.entries.filter fun query => !(presigned && query.1 == ascii "X-Amz-Signature")).Perm
        (others.entries.filter fun query => !(presigned && query.1 == ascii "X-Amz-Signature")))
    ∧ ∃ sorted : List (Bytes × Bytes),
      sorted.Perm ((queries.entries.filter fun query =>
        !(presigned && query.1 == ascii "X-Amz-Signature")).map fun query =>
          (encode query.1, encode query.2))
      ∧ sorted.Pairwise (fun a b => a.1 < b.1 ∨ a.1 = b.1 ∧ a.2 ≤ b.2)
      ∧ canonicalQuery queries presigned
        = Bytes.join (ascii "&") (sorted.map fun pair => pair.1 ++ ascii "=" ++ pair.2) := by
  refine ⟨canonicalQuery_eq_iff queries others presigned,
    Ordered.sort pairBefore (signedEncodings queries presigned), ?_, ?_, ?_⟩
  · exact Ordered.sort_perm pairBefore _
  · exact (sorted_sort_pairs _).imp fun hpair => not_pairBefore_iff.mp hpair
  · exact canonicalQuery_eq_joinPairs queries presigned

/-- A byte above 127 comes last among names, and its encoding comes first. -/
example : canonicalQuery (.ofList .bytewise [([195], ascii "2"), (ascii "a", ascii "1")]) false
    = ascii "%C3=2&a=1" := by decide

end Canonical

end SigV4
