import SigV4.Proofs.InsertionOrder
import SigV4.Proofs.Refusals
import SigV4.Proofs.SignedHeaders
import SigV4.Proofs.Words

/-!
# Which headers are signed

Headers are kept in an order that ignores case and are signed in the byte-wise order of their names
in lower case. The two are one order, so the groups of neighbours that become lines are complete:

* **`isSigned_iff`**: which names are signed, in words of its own.
* **`pairwise_names_gather`**, **`gather_values`**: in a sorted list every name has one group, in
  ascending order, with all values of that name. The induction is on the headers.
* **`values_signedHeaders`**: so a group has the values of its name in the order in which they were
  added, in whatever case.
* **`CanonicalRequest.build_eq_ok_iff`**: a canonical request is built from the pairs of names and
  canonical values, if the host is one of them.
-/

namespace SigV4

namespace Canonical

/-! ## The selection

What is signed is said without the canonical form: by the skip list, the filter and the host, which
is always signed. -/

/-- The names in lower case that are signed. A filter has a say in those that are neither never nor
always signed. -/
def Selected (filter : Option (Bytes → Bool)) (name : Bytes) : Prop :=
  name ∉ [ascii "authorization", ascii "connection", ascii "expect", ascii "transfer-encoding",
      ascii "user-agent", ascii "x-amzn-trace-id"]
    ∧ (filter = none
      ∨ name ∈ [ascii "host", ascii "x-amz-date", ascii "x-amz-security-token",
        ascii "x-amz-content-sha256"]
      ∨ ∃ accepts, filter = some accepts ∧ accepts name = true)

/-- The selection is the one in words. The names that are required are tried one by one. -/
theorem isSigned_iff {filter : Option (Bytes → Bool)} {name : Bytes} :
    isSigned filter name = true ↔ Selected filter name := by
  have hrequired : isRequired name = true ↔ name ∈ [ascii "host", ascii "x-amz-date",
      ascii "x-amz-security-token", ascii "x-amz-content-sha256"] := by
    simp only [isRequired, List.contains_iff_mem, List.mem_cons, List.not_mem_nil, or_false]
    constructor
    · rintro (h | h | h | h) <;> simp [h]
    · rintro (h | h | h | h) <;> simp [h]
  rw [isSigned, Bool.and_eq_true, Bool.not_eq_true', Selected, ← hrequired]
  refine and_congr ?_ ?_
  · rw [isSkipped, ← Bool.not_eq_true, List.contains_iff_mem]
  · cases filter with
    | none => simp
    | some accepts => simp

instance (filter : Option (Bytes → Bool)) (name : Bytes) : Decidable (Selected filter name) :=
  decidable_of_iff _ isSigned_iff

/-- The host is signed, whatever the filter says. -/
theorem selected_host (filter : Option (Bytes → Bool)) : Selected filter (ascii "host") :=
  ⟨by decide, .inr (.inl (by decide))⟩

/-! ## Groups of a sorted list -/

/-- A header with its name in lower case. -/
def lowered (header : Bytes × Bytes) : Bytes × Bytes := (toLower header.1, header.2)

/-- Names do not descend. -/
def Ascending (headers : List (Bytes × Bytes)) : Prop := headers.Pairwise fun a b => ¬ b.1 < a.1

theorem exists_header_of_mem_gather {headers : List (Bytes × Bytes)} {group : Bytes × List Bytes}
    (h : group ∈ gather headers) : ∃ value, (group.1, value) ∈ headers := by
  obtain ⟨value, values, hvalues⟩ := List.exists_cons_of_ne_nil (gather_values_ne_nil h)
  refine ⟨value, ?_⟩
  rw [← gather_spread headers]
  exact List.mem_flatMap.mpr ⟨group, h, by simp [hvalues]⟩

/-- The names of the groups ascend strictly, so none has two groups. The induction is on the headers: a
header joins the group behind it, or its name is a smaller one. -/
theorem pairwise_names_gather {headers : List (Bytes × Bytes)} (h : Ascending headers) :
    (gather headers).Pairwise fun a b => a.1 < b.1 := by
  induction headers with
  | nil => exact .nil
  | cons header headers ih =>
    obtain ⟨hheader, hheaders⟩ := List.pairwise_cons.mp h
    have hgroups := ih hheaders
    rw [gather]
    split
    next next values groups hgather =>
      rw [hgather] at hgroups
      obtain ⟨hnext, hothers⟩ := List.pairwise_cons.mp hgroups
      split
      next hname => exact List.pairwise_cons.mpr ⟨fun group hgroup => hname ▸ hnext group hgroup, hothers⟩
      next hname =>
        -- A header does not precede those behind it, so another name is a smaller one.
        have hlt : header.1 < next := by
          obtain ⟨value, hvalue⟩ : ∃ value, (next, value) ∈ headers :=
            exists_header_of_mem_gather (hgather ▸ List.mem_cons_self)
          have hle : header.1 ≤ next := List.not_lt.mp (hheader _ hvalue)
          exact Std.lt_of_le_of_ne hle hname
        refine List.pairwise_cons.mpr ⟨fun group hgroup => ?_, hgroups⟩
        rcases List.mem_cons.mp hgroup with rfl | hgroup
        · exact hlt
        · exact Std.lt_trans hlt (hnext group hgroup)
    next => exact List.pairwise_singleton _ _

/-- Among groups of different names, the headers of a name are those of its group. The induction is on the
groups, all but one of which the filter drops. -/
theorem filter_spread {groups : List (Bytes × List Bytes)}
    (h : groups.Pairwise fun a b => a.1 < b.1) {group : Bytes × List Bytes} (hgroup : group ∈ groups) :
    (groups.flatMap fun group => group.2.map (group.1, ·)).filter (fun header => header.1 == group.1)
      = group.2.map (group.1, ·) := by
  have hown (group : Bytes × List Bytes) :
      (group.2.map (group.1, ·)).filter (fun header => header.1 == group.1)
        = group.2.map (group.1, ·) := by
    refine List.filter_eq_self.mpr fun header hheader => ?_
    obtain ⟨value, -, rfl⟩ := List.mem_map.mp hheader
    simp
  have hother {group other : Bytes × List Bytes} (hne : other.1 ≠ group.1) :
      (other.2.map (other.1, ·)).filter (fun header => header.1 == group.1) = [] := by
    refine List.filter_eq_nil_iff.mpr fun header hheader => ?_
    obtain ⟨value, -, rfl⟩ := List.mem_map.mp hheader
    simpa using hne
  -- The names ascend strictly, so no other group has the name of this one.
  induction groups with
  | nil => exact absurd hgroup List.not_mem_nil
  | cons first groups ih =>
    obtain ⟨hfirst, hgroups⟩ := List.pairwise_cons.mp h
    rw [List.flatMap_cons, List.filter_append]
    rcases List.mem_cons.mp hgroup with rfl | hgroup
    · have hrest : (groups.flatMap fun group => group.2.map (group.1, ·)).filter
          (fun header => header.1 == group.1) = [] := by
        rw [List.filter_flatMap]
        refine List.flatMap_eq_nil_iff.mpr fun other hmem => hother ?_
        exact fun heq => Std.lt_irrefl (heq ▸ hfirst other hmem)
      rw [hown, hrest, List.append_nil]
    · have hne : first.1 ≠ group.1 := fun heq => Std.lt_irrefl (heq ▸ hfirst group hgroup)
      rw [hother hne, ih hgroups hgroup, List.nil_append]

/-- A group has all values of its name, in their order. The headers are the groups spread out again, so
filtering them filters the groups. -/
theorem gather_values {headers : List (Bytes × Bytes)} (h : Ascending headers)
    {group : Bytes × List Bytes} (hgroup : group ∈ gather headers) :
    group.2 = (headers.filter fun header => header.1 == group.1).map (·.2) := by
  have hfilter := filter_spread (pairwise_names_gather h) hgroup
  rw [gather_spread] at hfilter
  rw [hfilter, List.map_map]
  exact (List.map_id' group.2).symm

/-! ## Groups of the signed headers -/

/-- The headers that are signed, with their names in lower case. -/
def signedEntries (headers : Headers) (filter : Option (Bytes → Bool)) : List (Bytes × Bytes) :=
  (headers.entries.map lowered).filter fun header => isSigned filter header.1

/-- The signed headers are the groups of those that were selected. -/
theorem signedHeaders_eq (headers : Headers) (filter : Option (Bytes → Bool)) :
    signedHeaders headers filter = gather (signedEntries headers filter) := rfl

/-- The order of the collection is that of the names in lower case. -/
theorem ascending_signedEntries (headers : Headers) (filter : Option (Bytes → Bool)) :
    Ascending (signedEntries headers filter) := by
  refine List.Pairwise.filter _ (List.pairwise_map.mpr ?_)
  refine headers.sorted.imp fun {a b} hab => ?_
  show ¬ toLower b.1 < toLower a.1
  rw [← precedes_iff, Bool.not_eq_true]
  exact hab

/-- The signed headers ascend by their names, each of which has one line. -/
theorem pairwise_names_signedHeaders (headers : Headers) (filter : Option (Bytes → Bool)) :
    (signedHeaders headers filter).Pairwise fun a b => a.1 < b.1 :=
  pairwise_names_gather (ascending_signedEntries headers filter)

/-- The values of a name in whatever case, in the order in which they were added. -/
def valuesOf (added : List (Bytes × Bytes)) (name : Bytes) : List Bytes :=
  (added.filter fun header => toLower header.1 == name).map (·.2)

/-- The values of a signed header are those that were added under its name, in whatever case and in the
order in which they were added. -/
theorem values_signedHeaders {added : List (Bytes × Bytes)} {filter : Option (Bytes → Bool)}
    {group : Bytes × List Bytes}
    (hgroup : group ∈ signedHeaders (.ofList .caseInsensitive added) filter) :
    group.2 = valuesOf added group.1 := by
  -- Some header has the group's name in its own case, and the collection was filled by that name.
  obtain ⟨header, hheader, hname⟩ := exists_header_of_mem_signedHeaders hgroup
  obtain ⟨value, hvalue⟩ := exists_header_of_mem_gather hgroup
  have hsigned : isSigned filter group.1 = true := (List.mem_filter.mp hvalue).2
  have hnamed : (fun entry => toLower entry.1 == group.1)
      = Fields.named .caseInsensitive header.1 := by
    funext entry
    rw [← hname]
    rfl
  rw [gather_values (ascending_signedEntries _ filter) hgroup, signedEntries, List.filter_filter,
    List.filter_map, List.map_map, valuesOf, hnamed, ← Fields.filter_named_ofList, ← hnamed]
  congr 1
  -- The selection looks at the name only, so it keeps all headers of the group or none.
  refine List.filter_congr fun entry _ => ?_
  show (toLower entry.1 == group.1 && isSigned filter (toLower entry.1)) = (toLower entry.1 == group.1)
  cases hentry : toLower entry.1 == group.1 with
  | false => rfl
  | true => rw [eq_of_beq hentry, hsigned]; rfl

/-! ## Pairs of names and canonical values -/

/-- The canonical values of a header on one line. -/
def joinedValue (values : List Bytes) : Bytes :=
  Bytes.join (ascii ",") (values.map fun value => Bytes.join (ascii " ") (words value))

/-- A value is refused only for a line break in one of the texts. Otherwise the words of each text are
joined by blanks and the texts by commas. -/
theorem canonicalValue_eq_ok_iff {name value : Bytes} {values : List Bytes} :
    canonicalValue name values = .ok value
      ↔ (∀ text ∈ values, hasLineBreak text = false) ∧ value = joinedValue values := by
  have hjoined : joinedValue values = Bytes.join (ascii ",") (values.map collapseBlanks) :=
    congrArg (Bytes.join (ascii ",") <| values.map ·) (funext fun text =>
      (collapseBlanks_eq_join_words text).symm)
  rw [hjoined]
  constructor
  · exact canonicalValue_ok
  · rintro ⟨hplain, rfl⟩
    rw [canonicalValue, if_neg]
    rw [Bool.not_eq_true, List.any_eq_false]
    exact fun text htext => by simp [hplain text htext]

/-- Where no signed value has a line break, every group has its pair. -/
theorem headerPairs_of_plain {headers : Headers} {filter : Option (Bytes → Bool)}
    (h : ∀ group ∈ signedHeaders headers filter, ∀ text ∈ group.2, hasLineBreak text = false) :
    headerPairs headers filter
      = .ok ((signedHeaders headers filter).map fun group => (group.1, joinedValue group.2)) := by
  rw [headerPairs_eq_ok_iff, List.forall₂_map_right_iff]
  exact List.forall₂_same.mpr fun group hgroup =>
    ⟨rfl, canonicalValue_eq_ok_iff.mpr ⟨h group hgroup, rfl⟩⟩

/-- Pairs that represent groups are made of their names and joined values. -/
theorem eq_map_of_represents {groups : List (Bytes × List Bytes)} {pairs : List (Bytes × Bytes)}
    (h : List.Forall₂ Represents groups pairs) :
    pairs = groups.map fun group => (group.1, joinedValue group.2) := by
  induction h with
  | nil => rfl
  | @cons group pair groups pairs hpair _ ih =>
    rw [List.map_cons, ← ih, ← (canonicalValue_eq_ok_iff.mp hpair.2).2, ← hpair.1]

/-- Some group has a name exactly if some pair has it. -/
theorem any_name_iff {groups : List (Bytes × List Bytes)} {pairs : List (Bytes × Bytes)}
    (h : List.Forall₂ Represents groups pairs) (name : Bytes) :
    groups.any (·.1 == name) = true ↔ ∃ pair ∈ pairs, pair.1 = name := by
  have hnames : (∃ pair ∈ pairs, pair.1 = name) ↔ name ∈ groups.map (·.1) := by
    rw [← map_fst_of_represents h, List.mem_map]
  rw [hnames, List.mem_map, List.any_eq_true]
  simp only [beq_iff_eq]

/-- The lines are those of the pairs, group by group. -/
theorem lines_of_represents {groups : List (Bytes × List Bytes)} {pairs : List (Bytes × Bytes)}
    (h : List.Forall₂ Represents groups pairs) :
    groups.mapM (fun (name, values) => canonicalHeaderLine name values)
      = .ok (pairs.map pairLine) := by
  rw [Outcome.mapM_eq_ok_iff, List.forall₂_map_right_iff]
  refine h.imp fun group pair hpair => ?_
  refine Outcome.bind_eq_ok.mpr ⟨pair.2, hpair.2, Outcome.pure_eq_ok.mpr ?_⟩
  rw [pairLine, hpair.1]

end Canonical

namespace CanonicalRequest

open Canonical

variable {σ : Type} {request : Request σ} {config : Config} {hash : Bytes}
  {canonical : CanonicalRequest}

/-! ## Building -/

/-- The canonical request of the pairs of names and canonical values. -/
def ofPairs (request : Request σ) (config : Config) (hash : Bytes) (pairs : List (Bytes × Bytes)) :
    CanonicalRequest where
  method := request.method.text
  path := canonicalPath request.path config.normalizePath config.doubleEncode
  query := canonicalQuery request.queries config.presigned
  headers := pairs.flatMap pairLine
  signedHeaders := Bytes.join (ascii ";") (pairs.map (·.1))
  payloadHash := hash

/-- **What a canonical request is built from.** The pairs exist if no signed value has a line break, and the
host has to be one of them; nothing else can fail. -/
theorem build_eq_ok_iff : build request config hash = .ok canonical
    ↔ ∃ pairs, headerPairs request.headers config.headerFilter = .ok pairs
      ∧ (∃ pair ∈ pairs, pair.1 = ascii "host") ∧ canonical = ofPairs request config hash pairs := by
  constructor
  · intro h
    obtain ⟨pairs, hpairs, hcanonical⟩ := build_ok h
    have hname := any_name_iff (headerPairs_eq_ok_iff.mp hpairs) (ascii "host")
    refine ⟨pairs, hpairs, hname.mp ?_, hcanonical⟩
    simp only [build] at h
    split at h
    · exact absurd h Outcome.throw_ne_ok
    next hpresent => rwa [Bool.not_eq_true', Bool.not_eq_false] at hpresent
  · -- Conversely, each step is run on what the pairs stand for.
    rintro ⟨pairs, hpairs, hname, rfl⟩
    have hgroups := headerPairs_eq_ok_iff.mp hpairs
    have hpresent := (any_name_iff hgroups (ascii "host")).mpr hname
    simp only [build]
    rw [hpresent, Bool.not_true, if_neg Bool.false_ne_true]
    refine Outcome.bind_eq_ok.mpr ⟨_, lines_of_represents hgroups, Outcome.pure_eq_ok.mpr ?_⟩
    rw [ofPairs, map_fst_of_represents hgroups, List.flatMap_def]

/-- Canonicalisation fails for reasons of its own only. So there is such a failure whenever there is no
result. -/
theorem exists_fault_iff :
    (∃ fault, build request config hash = .error (.canonicalization fault))
      ↔ ¬∃ canonical, build request config hash = .ok canonical := by
  cases hbuild : build request config hash with
  | ok canonical => simp
  | error failure =>
    have hfault : ∃ fault, failure = .canonicalization fault := by
      refine Classical.byContradiction fun hother => ?_
      exact Signer.build_avoids request config hash (fun fault heq => hother ⟨fault, heq.symm⟩) hbuild
    obtain ⟨fault, rfl⟩ := hfault
    simp

/-- The names in lower case are those that the canonical request signs, and each has one line with
all its values. -/
structure SignsExactly (filter : Option (Bytes → Bool)) (added : List (Bytes × Bytes))
    (canonical : CanonicalRequest) (names : List Bytes) : Prop where
  ascending : names.Pairwise (· < ·)
  mem_iff : ∀ name, name ∈ names ↔ Selected filter name ∧ ∃ header ∈ added, toLower header.1 = name
  signedHeaders : canonical.signedHeaders = Bytes.join (ascii ";") names
  headers : canonical.headers = names.flatMap fun name =>
    name ++ ascii ":" ++ joinedValue (valuesOf added name) ++ ascii "\n"

section

variable {added : List (Bytes × Bytes)}

/-- What was built signs exactly the selected names. A name is listed if it has a group, and it has one if
it is selected and was added in some case. -/
theorem signsExactly_of_build (hadded : request.headers = .ofList .caseInsensitive added)
    (h : build request config hash = .ok canonical) :
    ∃ names, SignsExactly config.headerFilter added canonical names := by
  obtain ⟨pairs, hpairs, -, rfl⟩ := build_eq_ok_iff.mp h
  have hgroups := headerPairs_eq_ok_iff.mp hpairs
  rw [hadded] at hgroups
  -- The names are those of the groups: they ascend, and each is that of a selected header.
  refine ⟨pairs.map (·.1), ?_, fun name => ?_, rfl, ?_⟩
  · rw [map_fst_of_represents hgroups]
    exact List.pairwise_map.mpr (pairwise_names_signedHeaders _ _)
  · rw [map_fst_of_represents hgroups, List.mem_map, ← isSigned_iff]
    constructor
    · rintro ⟨group, hgroup, rfl⟩
      obtain ⟨value, values, hvalues⟩ := List.exists_cons_of_ne_nil (gather_values_ne_nil hgroup)
      obtain ⟨hsigned, header, hheader, hname, -⟩ :=
        mem_signedHeaders_iff.mp ⟨group, hgroup, rfl, hvalues ▸ List.mem_cons_self⟩
      exact ⟨hsigned, header, Fields.mem_ofList.mp hheader, hname⟩
    · rintro ⟨hsigned, header, hheader, hname⟩
      obtain ⟨group, hgroup, heq, -⟩ :=
        mem_signedHeaders_iff.mpr ⟨hsigned, header, Fields.mem_ofList.mpr hheader, hname, rfl⟩
      exact ⟨group, hgroup, heq⟩
  · -- Line by line, the values of a group are all values of its name.
    have hlines := eq_map_of_represents hgroups
    show pairs.flatMap pairLine = _
    rw [hlines, List.flatMap_map, List.map_map, List.flatMap_map]
    refine List.flatMap_congr fun group hgroup => ?_
    show pairLine (group.1, joinedValue group.2) = _
    rw [values_signedHeaders hgroup]
    rfl

/-- A canonical request is built exactly if some header is the host and no selected value has a line break.
-/
theorem exists_build_iff (hadded : request.headers = .ofList .caseInsensitive added) :
    (∃ canonical, build request config hash = .ok canonical)
      ↔ (∃ header ∈ added, toLower header.1 = ascii "host")
        ∧ ∀ header ∈ added, Selected config.headerFilter (toLower header.1) →
          hasLineBreak header.2 = false := by
  have hentries (header : Bytes × Bytes) : header ∈ request.headers.entries ↔ header ∈ added := by
    rw [hadded]
    exact Fields.mem_ofList
  constructor
  · rintro ⟨canonical, hbuild⟩
    refine ⟨?_, fun header hheader hselected => ?_⟩
    · -- The pair of the host comes from a header, in whatever case.
      obtain ⟨pairs, hpairs, ⟨pair, hpair, hname⟩, -⟩ := build_eq_ok_iff.mp hbuild
      obtain ⟨group, hgroup, hgroupName, -⟩ :=
        Outcome.exists_partner (headerPairs_eq_ok_iff.mp hpairs).flip hpair
      obtain ⟨header, hheader, hlower⟩ := exists_header_of_mem_signedHeaders hgroup
      exact ⟨header, (hentries header).mp hheader, hlower.trans (hgroupName.symm.trans hname)⟩
    · exact hasLineBreak_of_build hbuild ((hentries header).mpr hheader)
        (isSigned_iff.mpr hselected)
  · rintro ⟨⟨header, hheader, hname⟩, hplain⟩
    -- All groups that are signed have canonical values.
    have hpairs := headerPairs_of_plain
      (fun group (hgroup : group ∈ Canonical.signedHeaders request.headers config.headerFilter)
        text htext => by
        obtain ⟨hsigned, header, hheader, hname, rfl⟩ :=
          mem_signedHeaders_iff.mp ⟨group, hgroup, rfl, htext⟩
        exact hplain header ((hentries header).mp hheader) (isSigned_iff.mp (hname ▸ hsigned)))
    -- The host is signed whatever the filter says.
    obtain ⟨group, hgroup, hgroupName, -⟩ := mem_signedHeaders_iff.mpr
      ⟨isSigned_iff.mpr (selected_host config.headerFilter), header, (hentries header).mpr hheader,
        hname, rfl⟩
    exact ⟨_, build_eq_ok_iff.mpr ⟨_, hpairs, ⟨_, List.mem_map_of_mem hgroup, hgroupName⟩, rfl⟩⟩

/-- **Exactly the selected headers are signed.** Let the headers have been added in some order, as those of
any request can be: a collection is what its own entries fill. The canonical request is refused if no header
is the host or a selected one has a line break in its value, and for no other reason. Otherwise it lists the
selected names in ascending order and has one line for each, with the words of all its values. -/
theorem build_signs_selected (hadded : request.headers = .ofList .caseInsensitive added)
    (config : Config) (hash : Bytes) :
    ((∃ fault, build request config hash = .error (.canonicalization fault))
        ↔ (∀ header ∈ added, toLower header.1 ≠ ascii "host")
          ∨ ∃ header ∈ added, Selected config.headerFilter (toLower header.1)
            ∧ (13 ∈ header.2 ∨ 10 ∈ header.2))
      ∧ ((¬∃ fault, build request config hash = .error (.canonicalization fault)) →
        ∃ canonical names, build request config hash = .ok canonical
          ∧ SignsExactly config.headerFilter added canonical names) := by
  constructor
  · rw [exists_fault_iff, exists_build_iff hadded, Classical.not_and_iff_not_or_not]
    refine or_congr ?_ ?_
    · simp only [not_exists, not_and, ne_eq]
    · simp only [hasLineBreak_eq_false_iff, Classical.not_forall, not_and_or, Classical.not_not,
        exists_prop]
  · intro hgood
    obtain ⟨canonical, hbuild⟩ := Classical.not_not.mp (mt exists_fault_iff.mpr hgood)
    obtain ⟨names, hnames⟩ := signsExactly_of_build hadded hbuild
    exact ⟨canonical, names, hbuild, hnames⟩

end

/-- Headers in mixed case and out of order; one that the filter leaves out has a line break, and so
has one that is never signed. -/
def mixedHeaders : List (Bytes × Bytes) :=
  [(ascii "x-b", ascii "2"), (ascii "X-A", ascii "  1 \t one"), (ascii "HOST", ascii "h"),
    (ascii "Expect", ascii "\r\n"), (ascii "X-Hidden", ascii "a\nb"), (ascii "x-a", ascii "0")]

def mixedRequest : Request MemorySource where
  headers := .ofList .caseInsensitive mixedHeaders

def hidingConfig : Config where
  headerFilter := some fun name => name == ascii "x-a" || name == ascii "x-b"

/-- The line breaks of this request are in headers that are not signed, so they do not matter. -/
theorem build_signs_selected_of_hidden_break :
    mixedRequest.headers = .ofList .caseInsensitive mixedHeaders
      ∧ (¬∃ fault, build mixedRequest hidingConfig [] = .error (.canonicalization fault))
      ∧ ∃ canonical names, build mixedRequest hidingConfig [] = .ok canonical
        ∧ SignsExactly hidingConfig.headerFilter mixedHeaders canonical names := by
  have hgood : ¬∃ fault, build mixedRequest hidingConfig [] = .error (.canonicalization fault) := by
    rw [(build_signs_selected rfl hidingConfig []).1]
    decide
  exact ⟨rfl, hgood, (build_signs_selected rfl hidingConfig []).2 hgood⟩

end CanonicalRequest

end SigV4
