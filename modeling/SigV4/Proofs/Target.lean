import SigV4.Canonical.Query
import SigV4.Proofs.CanonicalPath
import SigV4.Proofs.Collections
import SigV4.Request

/-!
# What a server reads off a request target

A server sees only the target of a request. It cuts the target at the first question mark, and the
query at every `&` and each part at its first `=`; path and pairs stay percent-encoded as they
came. `canonical_of_target` says that this is enough to recompute the path and the query that the
client signed:

* **`splitTarget_target`**, **`queryPairs?_target`**: no separator of a target occurs in what it
  separates, so reading undoes `Request.target`.
* **`canonicalPath_eq`**: normalising and encoding again work on the encoded path
  (`normalizePath_encodePath`).
* **`canonicalQuery_eq`**: the parameter that is left out is recognised by its encoded name, since
  encoding is injective.
-/

namespace SigV4.Canonical

open Bytes Percent

variable {σ : Type}

/-- The path that a target names, and its query if it has one. -/
def splitTarget (target : Bytes) : Bytes × Option Bytes :=
  match cut? (ascii "?") target with
  | some (path, query) => (path, some query)
  | none => (target, none)

/-- The encoded names and values of a query, in which every part must have a `=`. -/
def queryPairs? : Option Bytes → Option (List (Bytes × Bytes))
  | none => some []
  | some query => (split 38 query).mapM (cut? (ascii "="))

/-- The canonical form of a path that is encoded already. -/
def canonicalOfEncoded (path : Bytes) (normalize doubleEncode : Bool) : Bytes :=
  let path := if normalize then normalizePath path else path
  if doubleEncode then encodePath path else path

/-- The encoded pairs that are signed. -/
def signedPairs (pairs : List (Bytes × Bytes)) (presigned : Bool) : List (Bytes × Bytes) :=
  pairs.filter fun pair => !(presigned && pair.1 == signatureParameter)

/-- The pairs as a query has them. -/
def joinPairs (pairs : List (Bytes × Bytes)) : Bytes :=
  join (ascii "&") (pairs.map fun (name, value) => name ++ ascii "=" ++ value)

/-! ## Reading undoes writing

Encoding leaves no separator in what is separated, so the first separator that a reader finds is one
that was written. -/

/-- The path of a target, which is never empty. -/
def encodedPath (request : Request σ) : Bytes :=
  if request.path.isEmpty then ascii "/" else encodePath request.path

/-- The parameters of a request as they stand in its target. -/
def encodedPairs (queries : Queries) : List (Bytes × Bytes) :=
  queries.entries.map fun (name, value) => (encode name, encode value)

/-- The first question mark of a target is that before its query, as encoding leaves none in the path. -/
theorem not_mem_encodedPath (request : Request σ) : 63 ∉ encodedPath request := by
  unfold encodedPath
  split
  · decide
  · exact not_mem_encodePath (by decide) (by decide) (by decide) request.path

/-- A target is split into what it was joined from. -/
theorem splitTarget_target (request : Request σ) :
    splitTarget request.target =
      (encodedPath request,
        if request.queries.isEmpty then none
        else some (join (ascii "&") (request.queries.entries.map Request.encodeQuery))) := by
  have hpath := not_mem_encodedPath request
  rw [Request.target, ← encodedPath]
  split
  · rw [splitTarget, List.append_nil, show ascii "?" = [63] from rfl, cut?_eq_none hpath]
  · rw [splitTarget, ← List.append_assoc, show ascii "?" = [63] from rfl, cut?_append hpath]

/-- Neither separator of a query stands where a reader would take it for one. -/
structure Separable (pair : Bytes × Bytes) : Prop where
  name : 61 ∉ pair.1
  ampersand : 38 ∉ pair.1 ∧ 38 ∉ pair.2

/-- The text of one pair in a query. -/
def pairText (pair : Bytes × Bytes) : Bytes := pair.1 ++ ascii "=" ++ pair.2

/-- Each part falls into the pair that it was written for. -/
theorem mapM_cut?_pairText {pairs : List (Bytes × Bytes)} (hpairs : ∀ pair ∈ pairs, Separable pair) :
    (pairs.map pairText).mapM (cut? (ascii "=")) = some pairs := by
  induction pairs with
  | nil => rfl
  | cons pair pairs ih =>
    have hpair : cut? (ascii "=") (pairText pair) = some pair :=
      cut?_append (hpairs pair List.mem_cons_self).name pair.2
    rw [List.map_cons, List.mapM_cons, hpair, ih fun other hother =>
      hpairs other (List.mem_cons_of_mem pair hother)]
    rfl

/-- **A joined query falls into its pairs again.** Splitting at `&` finds the parts, as none of them has
one, and each part is cut at its first `=`, which stands behind the name. -/
theorem queryPairs?_joinPairs {pairs : List (Bytes × Bytes)} (hne : pairs ≠ [])
    (hpairs : ∀ pair ∈ pairs, Separable pair) : queryPairs? (some (joinPairs pairs)) = some pairs := by
  have hsplit : split 38 (joinPairs pairs) = pairs.map pairText := by
    refine split_join (by simpa using hne) fun part hpart => ?_
    obtain ⟨pair, hpair, rfl⟩ := List.mem_map.mp hpart
    obtain ⟨hname, hvalue⟩ := (hpairs pair hpair).ampersand
    simp [hname, hvalue, show ascii "=" = [61] from rfl]
  rw [queryPairs?, hsplit, mapM_cut?_pairText hpairs]

/-- Encoding leaves no separator in a name or in a value. It encodes `=` and `&` alike. -/
theorem separable_encoded (query : Bytes × Bytes) : Separable (encode query.1, encode query.2) :=
  ⟨not_mem_encode (by decide) (by decide) _,
    not_mem_encode (by decide) (by decide) _, not_mem_encode (by decide) (by decide) _⟩

/-- So the parameters of a request can be told apart. -/
theorem separable_encodedPairs (queries : Queries) :
    ∀ pair ∈ encodedPairs queries, Separable pair := by
  intro pair hpair
  obtain ⟨query, -, rfl⟩ := List.mem_map.mp hpair
  exact separable_encoded query

/-- The query of a target is that of the encoded pairs. -/
theorem join_encodeQuery (queries : Queries) :
    join (ascii "&") (queries.entries.map Request.encodeQuery) = joinPairs (encodedPairs queries) := by
  rw [joinPairs, encodedPairs, List.map_map]
  rfl

/-- The query of a target falls into the encoded parameters. A request without any has no query, which is
not the same as an empty one. -/
theorem queryPairs?_target (queries : Queries) :
    queryPairs? (if queries.isEmpty then none
        else some (join (ascii "&") (queries.entries.map Request.encodeQuery)))
      = some (encodedPairs queries) := by
  split
  next hempty =>
    have hentries : queries.entries = [] := List.isEmpty_iff.mp hempty
    rw [queryPairs?, encodedPairs, hentries]
    rfl
  next hempty =>
    have hentries : encodedPairs queries ≠ [] := fun h =>
      hempty (List.isEmpty_iff.mpr (List.map_eq_nil_iff.mp h))
    rw [join_encodeQuery]
    exact queryPairs?_joinPairs hentries (separable_encodedPairs queries)

/-! ## Recomputing what was signed

A server has the encoded path and pairs only. The client normalises the path and sorts the pairs
before or after encoding them, which makes no difference to the result. -/

/-- The path that an empty path stands for. -/
def writtenPath (path : Bytes) : Bytes := if path.isEmpty then ascii "/" else path

/-- The path of a target is the encoded form of one that is not empty. -/
theorem encodedPath_eq (request : Request σ) :
    encodedPath request = encodePath (writtenPath request.path) := by
  unfold encodedPath writtenPath
  split
  · rfl
  · rfl

/-- The empty path is normalised to the slash that is written for it. -/
theorem normalizePath_writtenPath (path : Bytes) :
    normalizePath (writtenPath path) = normalizePath path := by
  cases path with
  | nil => decide
  | cons b rest => rfl

/-- A normalised path starts with a slash. -/
theorem writtenPath_normalizePath (path : Bytes) :
    writtenPath (normalizePath path) = normalizePath path := rfl

/-- The canonical path can be computed from the path of the target. -/
theorem canonicalPath_eq (request : Request σ) (normalize doubleEncode : Bool) :
    canonicalPath request.path normalize doubleEncode
      = canonicalOfEncoded (encodedPath request) normalize doubleEncode := by
  -- The client normalises before it encodes, and a server can normalise only what is encoded already.
  have hraw : encodePath (writtenPath (if normalize then normalizePath request.path else request.path))
      = if normalize then normalizePath (encodedPath request) else encodedPath request := by
    rw [encodedPath_eq]
    cases normalize with
    | false => rfl
    | true =>
      simp only [if_true]
      rw [writtenPath_normalizePath, normalizePath_encodePath, normalizePath_writtenPath]
  unfold canonicalOfEncoded
  rw [← hraw]
  rfl

/-- An encoded name is that of the signature exactly if the name is. -/
theorem encode_beq_signatureParameter (name : Bytes) :
    (encode name == signatureParameter) = (name == signatureParameter) := by
  -- The name of the parameter has no byte that is encoded.
  have hplain : encode signatureParameter = signatureParameter := by decide
  rw [Bool.eq_iff_iff, beq_iff_eq, beq_iff_eq]
  constructor
  · intro h
    exact encode_injective (h.trans hplain.symm)
  · intro h
    rw [h, hplain]

/-- The canonical query can be computed from the pairs of the target, sorted as the client does. -/
theorem canonicalQuery_eq (queries : Queries) (presigned : Bool) :
    canonicalQuery queries presigned
      = joinPairs (Ordered.sort pairBefore (signedPairs (encodedPairs queries) presigned)) := by
  -- Leaving out the signature before and after encoding is the same.
  have hsigned : signedPairs (encodedPairs queries) presigned
      = (queries.entries.filter fun query => !(presigned && query.1 == signatureParameter)).map
        fun (name, value) => (encode name, encode value) := by
    rw [signedPairs, encodedPairs, List.filter_map]
    simp only [Function.comp_def, encode_beq_signatureParameter]
  rw [canonicalQuery, hsigned]
  rfl

/-- **A target determines the path and the query that are signed.** What a server splits off the
target is recomputed to the canonical path and, sorted, to the canonical query. Normalising the
encoded path is the same as encoding the normalised path. -/
theorem canonical_of_target (request : Request σ) (normalize doubleEncode presigned : Bool) :
    ∃ path query pairs sorted,
      splitTarget request.target = (path, query)
      ∧ canonicalPath request.path normalize doubleEncode
        = canonicalOfEncoded path normalize doubleEncode
      ∧ normalizePath (encodePath request.path) = encodePath (normalizePath request.path)
      ∧ queryPairs? query = some pairs
      ∧ sorted.Perm (signedPairs pairs presigned)
      ∧ Ordered.Sorted pairBefore sorted
      ∧ canonicalQuery request.queries presigned = joinPairs sorted := by
  refine ⟨encodedPath request, _, encodedPairs request.queries,
    Ordered.sort pairBefore (signedPairs (encodedPairs request.queries) presigned),
    splitTarget_target request, ?_, ?_, ?_, ?_, ?_, ?_⟩
  · exact canonicalPath_eq request normalize doubleEncode
  · exact normalizePath_encodePath request.path
  · exact queryPairs?_target request.queries
  · exact Ordered.sort_perm _ _
  · exact sorted_sort_pairs _
  · exact canonicalQuery_eq request.queries presigned

end SigV4.Canonical
