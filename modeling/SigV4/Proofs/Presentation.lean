import SigV4.Proofs.HeaderSelection
import Mathlib.Data.List.Nodup
import Mathlib.Logic.Relation

/-!
# How a request is presented

A client and a server may hold the same request in different shapes: names in another case, headers
and parameters in another order, values that were joined and trimmed on the way, headers of a proxy.
A canonical request stays the same under all of them (`CanonicalRequest.build_blind_to_restyling`),
by one step (`CanonicalRequest.build_of_restyles`) after the other:

* **`canonicalQuery_of_perm`**: parameters are sorted, and a sorted list is determined by what is in
  it.
* **`headerPairs_of_pairs`**: canonical pairs have different names, so in any order they are gathered
  to what they were, and canonical values are made canonical once more without a change
  (`Settled.canonicalValue`).
-/

namespace SigV4

namespace Canonical

/-- A canonical query does not depend on the order of the parameters, as they are sorted, values included.
-/
theorem canonicalQuery_of_perm {queries others : Queries} (h : others.entries.Perm queries.entries)
    (presigned : Bool) : canonicalQuery others presigned = canonicalQuery queries presigned := by
  unfold canonicalQuery
  dsimp only
  rw [Bytes.sort_eq_sort_iff.mpr ((h.filter _).map _)]

/-! ## Canonical pairs

A canonical request depends on its headers through the pairs of names and canonical values only. A
value that is canonical already stays as it is, so a request can be rebuilt from its own pairs. -/

/-- A value in canonical form. -/
structure Settled (value : Bytes) : Prop where
  plain : hasLineBreak value = false
  collapsed : Collapsed value

/-- A joined value is in canonical form: words have no blanks and are joined by single ones, and no text had
a line break. -/
theorem settled_joinedValue {values : List Bytes} (h : ∀ text ∈ values, hasLineBreak text = false) :
    Settled (joinedValue values) := by
  refine ⟨hasLineBreak_join (by decide) fun part hpart => ?_, ?_⟩
  · obtain ⟨text, htext, rfl⟩ := List.mem_map.mp hpart
    show hasLineBreak (Bytes.join [32] (words text)) = false
    rw [← collapseBlanks_eq_join_words, hasLineBreak_eq_false_iff]
    have hplain := hasLineBreak_eq_false_iff.mp (h text htext)
    exact ⟨fun hmem => hplain.1 (mem_of_mem_collapseBlanks (by decide) hmem),
      fun hmem => hplain.2 (mem_of_mem_collapseBlanks (by decide) hmem)⟩
  · refine Collapsed.join (by decide) fun part hpart => ?_
    obtain ⟨text, -, rfl⟩ := List.mem_map.mp hpart
    show Collapsed (Bytes.join [32] (words text))
    rw [← collapseBlanks_eq_join_words]
    exact collapsed_collapseBlanks text

/-- To make a canonical value canonical changes nothing. -/
theorem Settled.canonicalValue {value : Bytes} (h : Settled value) (name : Bytes) :
    canonicalValue name [value] = .ok value := by
  rw [canonicalValue_eq_ok_iff]
  refine ⟨by simpa using h.plain, ?_⟩
  show value = Bytes.join (ascii ",") [Bytes.join [32] (words value)]
  rw [Bytes.join_singleton, ← collapseBlanks_eq_join_words, collapseBlanks_of_collapsed h.collapsed]

variable {headers : Headers} {filter : Option (Bytes → Bool)} {pairs : List (Bytes × Bytes)}

/-- The values of canonical pairs are in canonical form. -/
theorem settled_of_headerPairs (h : headerPairs headers filter = .ok pairs) :
    ∀ pair ∈ pairs, Settled pair.2 := by
  intro pair hpair
  obtain ⟨group, -, -, hvalue⟩ := Outcome.exists_partner (headerPairs_eq_ok_iff.mp h).flip hpair
  obtain ⟨hplain, hjoined⟩ := canonicalValue_eq_ok_iff.mp hvalue
  rw [hjoined]
  exact settled_joinedValue hplain

/-- Canonical pairs ascend by their names, so no name is there twice. -/
theorem pairwise_names_headerPairs (h : headerPairs headers filter = .ok pairs) :
    pairs.Pairwise fun a b => a.1 < b.1 := by
  have hnames := map_fst_of_represents (headerPairs_eq_ok_iff.mp h)
  have hgroups := List.pairwise_map.mpr (pairwise_names_signedHeaders headers filter)
  rw [← hnames] at hgroups
  exact List.pairwise_map.mp hgroups

/-- Headers with different names are groups of their own. The induction is on the headers. -/
theorem gather_of_pairwise (h : pairs.Pairwise fun a b => a.1 < b.1) :
    gather pairs = pairs.map fun pair => (pair.1, [pair.2]) := by
  induction pairs with
  | nil => rfl
  | cons pair pairs ih =>
    obtain ⟨hpair, hpairs⟩ := List.pairwise_cons.mp h
    rw [gather, ih hpairs]
    cases pairs with
    | nil => rfl
    | cons next pairs =>
      have hne : pair.1 ≠ next.1 := Std.ne_of_lt (hpair next List.mem_cons_self)
      rw [List.map_cons]
      dsimp only
      rw [if_neg hne]
      rfl

/-- So a pair can be told by its name. -/
theorem eq_of_fst_eq (h : pairs.Pairwise fun a b => a.1 < b.1) {a b : Bytes × Bytes} (ha : a ∈ pairs)
    (hb : b ∈ pairs) (hname : a.1 = b.1) : a = b := by
  have hnames : (pairs.map (·.1)).Nodup := List.pairwise_map.mpr (h.imp Std.ne_of_lt)
  exact List.inj_on_of_nodup_map hnames ha hb hname

/-- Canonical pairs in any order and under any spelling of their names are canonical as they are,
whatever stands among them that is not signed. -/
theorem headerPairs_of_pairs (hpairs : headerPairs headers filter = .ok pairs)
    {added : List (Bytes × Bytes)}
    (hadded : ((added.map lowered).filter fun header => isSigned filter header.1).Perm pairs) :
    headerPairs (.ofList .caseInsensitive added) filter = .ok pairs := by
  have hnames := pairwise_names_headerPairs hpairs
  -- The collection sorts the pairs by name, and as no name is there twice, that is the old order.
  have hperm : (signedEntries (.ofList .caseInsensitive added) filter).Perm pairs :=
    (((Fields.entries_ofList_perm added).map lowered).filter _).trans hadded
  have hentries : signedEntries (.ofList .caseInsensitive added) filter = pairs := by
    refine hperm.eq_of_pairwise (fun a b ha hb hab hba => ?_) (ascending_signedEntries _ filter)
      (hnames.imp Std.not_gt_of_lt)
    have hname : a.1 = b.1 := Std.le_antisymm (List.not_lt.mp hab) (List.not_lt.mp hba)
    exact eq_of_fst_eq hnames (hperm.mem_iff.mp ha) hb hname
  rw [headerPairs_eq_ok_iff, signedHeaders_eq, hentries, gather_of_pairwise hnames,
    List.forall₂_map_left_iff, List.forall₂_same]
  exact fun pair hpair => ⟨rfl, (settled_of_headerPairs hpairs pair hpair).canonicalValue pair.1⟩

end Canonical

namespace CanonicalRequest

open Canonical

variable {σ : Type} {request other : Request σ} {config : Config} {hash : Bytes}
  {canonical : CanonicalRequest}

/-! ## Changes of presentation

A change is any one step that keeps the pairs or concerns what is not signed; longer changes are
sequences of such steps. -/

/-- One change that does not change what a request says. -/
inductive Restyles (filter : Option (Bytes → Bool)) (request : Request σ) : Request σ → Prop where
  /-- The signed headers give way to their canonical pairs, which are added in some order and with
  their names in some case. Headers that are not signed may stand among them. -/
  | canonicalHeaders {pairs added : List (Bytes × Bytes)}
      (hpairs : headerPairs request.headers filter = .ok pairs)
      (hadded : ((added.map lowered).filter fun header => isSigned filter header.1).Perm pairs) :
      Restyles filter request { request with headers := .ofList .caseInsensitive added }
  /-- The parameters are added in another order. -/
  | reorderedQueries {added : List (Bytes × Bytes)} (hadded : added.Perm request.queries.entries) :
      Restyles filter request { request with queries := .ofList .bytewise added }
  | addSkipped {name : Bytes} (value : Bytes) (hname : isSkipped (toLower name) = true) :
      Restyles filter request { request with headers := request.headers.add name value }
  | removeSkipped {name : Bytes} (hname : isSkipped (toLower name) = true) :
      Restyles filter request (request.removeHeader name)

/-- A change of presentation keeps the canonical request. There is one case for each kind of change; the
last two concern headers that are never signed. -/
theorem build_of_restyles (hbuild : build request config hash = .ok canonical)
    (hstep : Restyles config.headerFilter request other) :
    build other config hash = .ok canonical := by
  -- Each step leaves one of the parts that the canonical form is made of as it was, and does not touch the
  -- others.
  cases hstep with
  | canonicalHeaders hpairs hadded =>
    obtain ⟨pairs, hbuilt, hhost, rfl⟩ := build_eq_ok_iff.mp hbuild
    obtain rfl := Except.ok.inj (hbuilt.symm.trans hpairs)
    exact build_eq_ok_iff.mpr ⟨pairs, headerPairs_of_pairs hpairs hadded, hhost, rfl⟩
  | reorderedQueries hadded =>
    have hperm := (@Fields.entries_ofList_perm .bytewise _).trans hadded
    rw [← hbuild]
    exact build_congr rfl rfl (canonicalQuery_of_perm hperm config.presigned) rfl
  | addSkipped value hname =>
    rw [← hbuild]
    exact build_congr rfl rfl rfl (signedHeaders_add_of_skipped hname _ config.headerFilter value)
  | removeSkipped hname =>
    rw [← hbuild]
    exact build_congr rfl rfl rfl (signedHeaders_erase_of_skipped hname _ config.headerFilter)

/-- **Canonicalisation is blind to presentation, and idempotent.** However many changes of presentation a
request goes through, if it had a canonical request before, it has the same one afterwards, whose text is
the same byte by byte. The induction is on the changes. -/
theorem build_blind_to_restyling (hbuild : build request config hash = .ok canonical)
    (hsteps : Relation.ReflTransGen (Restyles config.headerFilter) request other) :
    build other config hash = .ok canonical := by
  induction hsteps with
  | refl => exact hbuild
  | tail _ hstep ih => exact build_of_restyles ih hstep

/-- The request with mixed headers, asked for with parameters of which two have one name. -/
def askingRequest : Request MemorySource :=
  { mixedRequest with
    queries := .ofList .bytewise [(ascii "b", ascii "1"), (ascii "b", ascii "0"), (ascii "a", [])] }

/-- Its canonical pairs, spelled anew, with a header that is never signed among them. -/
def respelledHeaders : Headers :=
  .ofList .caseInsensitive [(ascii "X-B", ascii "2"), (ascii "Connection", ascii "\r\n"),
    (ascii "x-A", ascii "1 one,0"), (ascii "Host", ascii "h")]

def turnedQueries : Queries :=
  .ofList .bytewise [(ascii "a", []), (ascii "b", ascii "0"), (ascii "b", ascii "1")]

def respelledRequest : Request MemorySource where
  headers := respelledHeaders.erase (ascii "CONNECTION")
  queries := turnedQueries

/-- Headers are respelled and reordered, parameters turned around, and a header that is never signed is
removed. -/
theorem build_blind_to_restyling_of_respelled_headers :
    ∃ canonical, build askingRequest hidingConfig [] = .ok canonical
      ∧ Relation.ReflTransGen (Restyles hidingConfig.headerFilter) askingRequest respelledRequest
      ∧ build respelledRequest hidingConfig [] = .ok canonical := by
  have hbuild : build askingRequest hidingConfig [] = .ok _ := rfl
  have hpairs : headerPairs askingRequest.headers hidingConfig.headerFilter
      = .ok [(ascii "host", ascii "h"), (ascii "x-a", ascii "1 one,0"), (ascii "x-b", ascii "2")] := rfl
  have hheaders : Restyles hidingConfig.headerFilter askingRequest
      { askingRequest with headers := respelledHeaders } := .canonicalHeaders hpairs (by decide)
  have hqueries : Restyles hidingConfig.headerFilter { askingRequest with headers := respelledHeaders }
      { askingRequest with headers := respelledHeaders, queries := turnedQueries } :=
    .reorderedQueries (by decide)
  have hremoved : Restyles hidingConfig.headerFilter
      { askingRequest with headers := respelledHeaders, queries := turnedQueries } respelledRequest :=
    @Restyles.removeSkipped _ _ _ (ascii "CONNECTION") (by decide)
  have hsteps : Relation.ReflTransGen (Restyles hidingConfig.headerFilter) askingRequest
      respelledRequest := .tail (.tail (.single hheaders) hqueries) hremoved
  exact ⟨_, hbuild, hsteps, build_blind_to_restyling hbuild hsteps⟩

end CanonicalRequest

end SigV4
