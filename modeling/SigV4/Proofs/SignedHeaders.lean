import SigV4.Proofs.CanonicalForm
import SigV4.Proofs.LineBreaks
import Mathlib.Data.List.Forall2

/-!
# The signed headers of a canonical request

Headers with the same name are gathered into groups, and every group becomes one line. What a group
holds is what the request holds (`Canonical.gather_spread`), so a canonical request that was built
says of each header that is signed that its value has no line break
(`CanonicalRequest.hasLineBreak_of_build`). The lines are those of the pairs that
`Canonical.headerPairs` returns (`CanonicalRequest.build_ok`).
-/

namespace SigV4

namespace Outcome

variable {α β : Type}

/-- All of a list is mapped if and only if each element is. -/
theorem mapM_eq_ok_iff {f : α → Outcome β} {xs : List α} {ys : List β} :
    xs.mapM f = .ok ys ↔ List.Forall₂ (fun x y => f x = .ok y) xs ys := by
  induction xs generalizing ys with
  | nil => cases ys <;> simp [pure_eq_ok]
  | cons x xs ih =>
    rw [List.mapM_cons, bind_eq_ok, List.forall₂_cons_left_iff]
    constructor
    · rintro ⟨y, hy, h⟩
      obtain ⟨ys', hys, h⟩ := bind_eq_ok.mp h
      exact ⟨y, ys', hy, ih.mp hys, (pure_eq_ok.mp h).symm⟩
    · rintro ⟨y, ys', hy, hys, rfl⟩
      exact ⟨y, hy, bind_eq_ok.mpr ⟨ys', ih.mpr hys, pure_eq_ok.mpr rfl⟩⟩

/-- What is in a list has a partner in any list that goes with it. -/
theorem exists_partner {R : α → β → Prop} {xs : List α} {ys : List β} (h : List.Forall₂ R xs ys)
    {x : α} (hx : x ∈ xs) : ∃ y ∈ ys, R x y := by
  induction h with
  | nil => exact absurd hx List.not_mem_nil
  | @cons x' y' xs ys hxy _ ih =>
    rcases List.mem_cons.mp hx with rfl | hx
    · exact ⟨y', List.mem_cons_self, hxy⟩
    · obtain ⟨y, hy, hxy⟩ := ih hx
      exact ⟨y, List.mem_cons_of_mem y' hy, hxy⟩

end Outcome

namespace Canonical

/-! ## Groups

Headers of one name make one group, with their values in the order in which they were added. -/

/-- Spread out again, the groups are the headers that were gathered, in the same order. A header joins the
first group of the rest or starts a new one, and spread out this is the same. -/
theorem gather_spread (headers : List (Bytes × Bytes)) :
    (gather headers).flatMap (fun group => group.2.map (group.1, ·)) = headers := by
  induction headers with
  | nil => rfl
  | cons header headers ih =>
    obtain ⟨name, value⟩ := header
    rw [gather]
    -- The header goes into the first group of the rest, or a new group is put in front.
    split
    next next values groups hgather =>
      rw [hgather] at ih
      split
      next hname =>
        subst hname
        simp [← ih]
      next => simp [← ih]
    next hgather =>
      rw [hgather] at ih
      simp [← ih]

/-- Every group has a value. -/
theorem gather_values_ne_nil {headers : List (Bytes × Bytes)} {group : Bytes × List Bytes}
    (h : group ∈ gather headers) : group.2 ≠ [] := by
  induction headers generalizing group with
  | nil => exact absurd h List.not_mem_nil
  | cons header headers ih =>
    rw [gather] at h
    -- The header's own group has its value, and the other groups were there before.
    split at h
    next next values groups hgather =>
      rw [hgather] at ih
      split at h
      · rcases List.mem_cons.mp h with rfl | h
        · exact List.cons_ne_nil _ _
        · exact ih (List.mem_cons_of_mem _ h)
      · rcases List.mem_cons.mp h with rfl | h
        · exact List.cons_ne_nil _ _
        · exact ih h
    next =>
      rw [List.mem_singleton.mp h]
      exact List.cons_ne_nil _ _

variable {headers : Headers} {filter : Option (Bytes → Bool)}

/-- The groups hold the values of the headers that are signed, and no others. Names are compared in lower
case, so one group may have values of several spellings. -/
theorem mem_signedHeaders_iff {name value : Bytes} :
    (∃ group ∈ signedHeaders headers filter, group.1 = name ∧ value ∈ group.2)
      ↔ isSigned filter name = true
        ∧ ∃ header ∈ headers.entries, toLower header.1 = name ∧ header.2 = value := by
  -- A value stands in a group if and only if the pair is there when the groups are spread out.
  have hspread : (name, value) ∈ (signedHeaders headers filter).flatMap
      (fun group => group.2.map (group.1, ·))
      ↔ (name, value) ∈ (headers.entries.map fun header => (toLower header.1, header.2)).filter
        fun header => isSigned filter header.1 := by
    rw [signedHeaders, gather_spread]
  simp only [List.mem_flatMap, List.mem_map, Prod.mk.injEq, List.mem_filter] at hspread
  constructor
  · rintro ⟨group, hgroup, hname, hvalue⟩
    obtain ⟨⟨header, hheader, heq⟩, hsigned⟩ :=
      hspread.mp ⟨group, hgroup, value, hvalue, hname, rfl⟩
    exact ⟨hsigned, header, hheader, heq⟩
  · rintro ⟨hsigned, header, hheader, heq⟩
    obtain ⟨group, hgroup, value', hvalue, hname, rfl⟩ :=
      hspread.mpr ⟨⟨header, hheader, heq⟩, hsigned⟩
    exact ⟨group, hgroup, hname, hvalue⟩

/-- Signed names are names of the request in lower case. -/
theorem exists_header_of_mem_signedHeaders {group : Bytes × List Bytes}
    (h : group ∈ signedHeaders headers filter) :
    ∃ header ∈ headers.entries, toLower header.1 = group.1 := by
  obtain ⟨value, values, hvalues⟩ := List.exists_cons_of_ne_nil (gather_values_ne_nil h)
  have hvalue : value ∈ group.2 := by
    rw [hvalues]
    exact List.mem_cons_self
  obtain ⟨-, header, hheader, hname, -⟩ := mem_signedHeaders_iff.mp ⟨group, h, rfl, hvalue⟩
  exact ⟨header, hheader, hname⟩

/-! ## Pairs of names and canonical values

A group has one canonical value, or none if one of its values has a line break. -/

/-- Lower-case names and canonical values, in the order of the canonical form. -/
def headerPairs (headers : Headers) (filter : Option (Bytes → Bool)) :
    Outcome (List (Bytes × Bytes)) :=
  (signedHeaders headers filter).mapM fun (name, values) => return (name, ← canonicalValue name values)

/-- A pair as it stands in the canonical form. -/
def pairLine (pair : Bytes × Bytes) : Bytes := pair.1 ++ ascii ":" ++ pair.2 ++ ascii "\n"

/-- A canonical value is made of values without line breaks, each with its blanks collapsed. -/
theorem canonicalValue_ok {name value : Bytes} {values : List Bytes}
    (h : canonicalValue name values = .ok value) :
    (∀ text ∈ values, hasLineBreak text = false)
      ∧ value = Bytes.join (ascii ",") (values.map collapseBlanks) := by
  unfold canonicalValue at h
  split at h
  · exact absurd h (by simp)
  next hbreak =>
    rw [Bool.not_eq_true, List.any_eq_false] at hbreak
    exact ⟨fun text htext => by simpa using hbreak text htext, (Except.ok.inj h).symm⟩

/-- Does the pair have the name of the group and the canonical form of its values? -/
def Represents (group : Bytes × List Bytes) (pair : Bytes × Bytes) : Prop :=
  pair.1 = group.1 ∧ canonicalValue group.1 group.2 = .ok pair.2

/-- The pairs are those of the groups, one by one. -/
theorem headerPairs_eq_ok_iff {pairs : List (Bytes × Bytes)} :
    headerPairs headers filter = .ok pairs
      ↔ List.Forall₂ Represents (signedHeaders headers filter) pairs := by
  have hpair (group : Bytes × List Bytes) (pair : Bytes × Bytes) :
      (do return (group.1, ← canonicalValue group.1 group.2) : Outcome (Bytes × Bytes)) = .ok pair
        ↔ Represents group pair := by
    constructor
    · intro h
      obtain ⟨value, hvalue, h⟩ := Outcome.bind_eq_ok.mp h
      obtain rfl := Outcome.pure_eq_ok.mp h
      exact ⟨rfl, hvalue⟩
    · rintro ⟨hname, hvalue⟩
      refine Outcome.bind_eq_ok.mpr ⟨pair.2, hvalue, Outcome.pure_eq_ok.mpr ?_⟩
      rw [← hname]
  rw [headerPairs, Outcome.mapM_eq_ok_iff]
  simp only [hpair]

/-- The pairs have the names of the groups. -/
theorem map_fst_of_represents {groups : List (Bytes × List Bytes)} {pairs : List (Bytes × Bytes)}
    (h : List.Forall₂ Represents groups pairs) : pairs.map (·.1) = groups.map (·.1) := by
  induction h with
  | nil => rfl
  | cons hpair _ ih => rw [List.map_cons, List.map_cons, hpair.1, ih]

/-- Every line is that of a pair. -/
theorem exists_pairs_of_lines {groups : List (Bytes × List Bytes)} {lines : List Bytes}
    (h : List.Forall₂ (fun group line => canonicalHeaderLine group.1 group.2 = .ok line)
      groups lines) :
    ∃ pairs, List.Forall₂ Represents groups pairs ∧ lines = pairs.map pairLine := by
  induction h with
  | nil => exact ⟨[], .nil, rfl⟩
  | @cons group line groups lines hline _ ih =>
    obtain ⟨pairs, hpairs, rfl⟩ := ih
    obtain ⟨value, hvalue, hline⟩ := Outcome.bind_eq_ok.mp hline
    obtain rfl := Outcome.pure_eq_ok.mp hline
    exact ⟨(group.1, value) :: pairs, .cons ⟨rfl, hvalue⟩ hpairs, rfl⟩

end Canonical

namespace CanonicalRequest

open Canonical

variable {σ : Type} {request : Request σ} {config : Config} {hash : Bytes}
  {canonical : CanonicalRequest}

/-- **What a canonical request is made of.** The pairs of its header lines give the list of signed names as
well, and nothing else about the headers enters into it. -/
theorem build_ok (h : build request config hash = .ok canonical) :
    ∃ pairs, headerPairs request.headers config.headerFilter = .ok pairs
      ∧ canonical = {
        method := request.method.text
        path := canonicalPath request.path config.normalizePath config.doubleEncode
        query := canonicalQuery request.queries config.presigned
        headers := pairs.flatMap pairLine
        signedHeaders := Bytes.join (ascii ";") (pairs.map (·.1))
        payloadHash := hash } := by
  simp only [build] at h
  split at h
  · exact absurd h Outcome.throw_ne_ok
  next =>
    obtain ⟨lines, hlines, hcanonical⟩ := Outcome.bind_eq_ok.mp h
    obtain rfl := Outcome.pure_eq_ok.mp hcanonical
    obtain ⟨pairs, hpairs, rfl⟩ := exists_pairs_of_lines (Outcome.mapM_eq_ok_iff.mp hlines)
    refine ⟨pairs, headerPairs_eq_ok_iff.mpr hpairs, ?_⟩
    rw [map_fst_of_represents hpairs, List.flatMap_def]

/-- A header that is signed has no line break in its value. Where one had, its group would have no canonical
value and there would be no canonical request. -/
theorem hasLineBreak_of_build (h : build request config hash = .ok canonical)
    {header : Bytes × Bytes} (hheader : header ∈ request.headers.entries)
    (hsigned : isSigned config.headerFilter (toLower header.1) = true) :
    hasLineBreak header.2 = false := by
  obtain ⟨pairs, hpairs, -⟩ := build_ok h
  obtain ⟨group, hgroup, -, hvalue⟩ :=
    mem_signedHeaders_iff.mpr ⟨hsigned, header, hheader, rfl, rfl⟩
  obtain ⟨pair, -, hpair⟩ := Outcome.exists_partner (headerPairs_eq_ok_iff.mp hpairs) hgroup
  exact (canonicalValue_ok hpair.2).1 header.2 hvalue

end CanonicalRequest

end SigV4
