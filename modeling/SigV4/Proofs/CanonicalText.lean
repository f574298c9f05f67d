import SigV4.Proofs.Encodings
import SigV4.Proofs.SignedHeaders

/-!
# No two requests share a canonical text

A canonical request is written as six parts with line feeds between them. The headers are a block of
lines themselves, as many as there are signed headers, and the payload hash at the end may be any
bytes. The text has one reading only all the same:

* **`not_mem_canonicalPath`**, **`not_mem_canonicalQuery`**: the parts in front of the headers have
  no line feed, since all that could be one is percent-encoded.
* **`plain_of_headerPairs`**: neither has a name or a value of a signed header, the values because
  they were checked, the names because those of the request have none.
* **`headerBlock_injective`**: so a line ends where it seems to, and the first empty line ends the
  block. The induction is on the headers.
-/

namespace SigV4

/-! ## The parts in front of the headers -/

/-- A method can be told by its text. The texts of any two of them are compared. -/
theorem Method.eq_of_text_eq {a b : Method} (h : a.text = b.text) : a = b := by
  cases a <;> cases b <;> first | rfl | exact absurd h (by decide)

theorem Method.not_mem_text (method : Method) : 10 ∉ method.text := by
  cases method <;> decide

namespace Canonical

/-- A canonical path has no line feed. In either form it was percent-encoded last, and encoding leaves only
bytes of its own alphabet. -/
theorem not_mem_canonicalPath (path : Bytes) (normalize doubleEncode : Bool) :
    10 ∉ canonicalPath path normalize doubleEncode := by
  have hencode := Percent.not_mem_encodePath (x := 10) (by decide) (by decide) (by decide)
  unfold canonicalPath
  dsimp only
  split
  · exact hencode _
  · exact hencode _

/-- A canonical query has no line feed: names and values were encoded, and what is written between them are
signs of equality and ampersands. -/
theorem not_mem_canonicalQuery (queries : Queries) (presigned : Bool) :
    10 ∉ canonicalQuery queries presigned := by
  have hencode := Percent.not_mem_encode (x := 10) (by decide) (by decide)
  have hequals : 10 ∉ ascii "=" := by decide
  refine Bytes.not_mem_join (by decide) fun part hpart => ?_
  -- Sorting permutes the pairs, and each of them was encoded.
  obtain ⟨pair, hpair, rfl⟩ := List.mem_map.mp hpart
  have hpair' := (Ordered.sort_perm Bytes.pairBefore _).mem_iff.mp hpair
  obtain ⟨query, -, rfl⟩ := List.mem_map.mp hpair'
  simp [hencode, hequals]

/-! ## The block of headers

Each line is a name, a colon and a value. Where names have neither colon nor line feed, the block can be
cut into its pairs again. -/

/-- A pair whose line can be read: the first colon ends the name and the first line feed the value. -/
structure PlainPair (pair : Bytes × Bytes) : Prop where
  name : 10 ∉ pair.1 ∧ 58 ∉ pair.1
  value : 10 ∉ pair.2

/-- A line with the bytes that are meant by its parts: a colon behind the name and a line feed behind the
value. In this form the first colon and the first line feed can be spoken of. -/
theorem pairLine_append (pair : Bytes × Bytes) (rest : Bytes) :
    pairLine pair ++ rest = (pair.1 ++ 58 :: pair.2) ++ 10 :: rest := by
  simp [pairLine, show ascii ":" = [58] from rfl, show ascii "\n" = [10] from rfl]

/-- What stands in front of the line feed has none itself. -/
theorem PlainPair.not_mem_line {pair : Bytes × Bytes} (h : PlainPair pair) :
    10 ∉ pair.1 ++ 58 :: pair.2 := by
  simp [h.name.1, h.value]

/-- A line does not end a block, as it has a colon at least where the end of a block has the line feed at
once. -/
theorem pairLine_append_ne {pair : Bytes × Bytes} (h : PlainPair pair) (rest rest' : Bytes) :
    pairLine pair ++ rest ≠ 10 :: rest' := by
  intro heq
  rw [pairLine_append, ← List.nil_append (10 :: rest')] at heq
  obtain ⟨hline, -⟩ := Bytes.append_cons_inj h.not_mem_line List.not_mem_nil heq
  exact absurd hline (by simp)

/-- Two texts that start with a line start with the same one and go on in the same way. The first line feed
ends the line, and the first colon ends the name in it. -/
theorem pairLine_injective {pair pair' : Bytes × Bytes} (h : PlainPair pair) (h' : PlainPair pair')
    {rest rest' : Bytes} (heq : pairLine pair ++ rest = pairLine pair' ++ rest') :
    pair = pair' ∧ rest = rest' := by
  rw [pairLine_append, pairLine_append] at heq
  obtain ⟨hline, hrest⟩ := Bytes.append_cons_inj h.not_mem_line h'.not_mem_line heq
  obtain ⟨hname, hvalue⟩ := Bytes.append_cons_inj h.name.2 h'.name.2 hline
  exact ⟨Prod.ext hname hvalue, hrest⟩

/-- The empty line behind a block of headers ends it. So two texts that start with a block start with the
same headers and go on in the same way, however many headers there are. The induction is on the headers of
the first, and a block that ends too early would have its empty line where the other has a header. -/
theorem headerBlock_injective {pairs pairs' : List (Bytes × Bytes)}
    (hpairs : ∀ pair ∈ pairs, PlainPair pair) (hpairs' : ∀ pair ∈ pairs', PlainPair pair)
    {rest rest' : Bytes}
    (h : pairs.flatMap pairLine ++ 10 :: rest = pairs'.flatMap pairLine ++ 10 :: rest') :
    pairs = pairs' ∧ rest = rest' := by
  induction pairs generalizing pairs' with
  | nil =>
    cases pairs' with
    | nil => exact ⟨rfl, (List.cons.inj h).2⟩
    -- The other block goes on where this one ends.
    | cons pair' pairs' =>
      rw [List.flatMap_cons, List.append_assoc] at h
      exact absurd h.symm (pairLine_append_ne (hpairs' pair' List.mem_cons_self) _ _)
  | cons pair pairs ih =>
    have hpair := hpairs pair List.mem_cons_self
    rw [List.flatMap_cons, List.append_assoc] at h
    cases pairs' with
    | nil => exact absurd h (pairLine_append_ne hpair _ _)
    | cons pair' pairs' =>
      rw [List.flatMap_cons, List.append_assoc] at h
      obtain ⟨rfl, h'⟩ := pairLine_injective hpair (hpairs' pair' List.mem_cons_self) h
      obtain ⟨rfl, hrest⟩ := ih (fun other hother => hpairs other (List.mem_cons_of_mem _ hother))
        (fun other hother => hpairs' other (List.mem_cons_of_mem _ hother)) h'
      exact ⟨rfl, hrest⟩

/-- The signed headers have plain names if those of the request are plain. Their values are plain in any
case: a value with a line break is refused before it is signed, and collapsing blanks brings in no other
byte. -/
theorem plain_of_headerPairs {headers : Headers} {filter : Option (Bytes → Bool)}
    {pairs : List (Bytes × Bytes)} (h : headerPairs headers filter = .ok pairs)
    (hnames : ∀ header ∈ headers.entries, 10 ∉ header.1 ∧ 58 ∉ header.1) :
    ∀ pair ∈ pairs, PlainPair pair := by
  intro pair hpair
  obtain ⟨group, hgroup, hname, hvalue⟩ :=
    Outcome.exists_partner (headerPairs_eq_ok_iff.mp h).flip hpair
  obtain ⟨header, hheader, hlower⟩ := exists_header_of_mem_signedHeaders hgroup
  obtain ⟨hplain, hvalue⟩ := canonicalValue_ok hvalue
  refine ⟨?_, ?_⟩
  · -- Lower case letters come from letters, so neither mark comes from anything but itself.
    rw [hname, ← hlower]
    obtain ⟨hlf, hcolon⟩ := hnames header hheader
    exact ⟨fun hmem => hlf (mem_of_mem_toLower (by decide) hmem),
      fun hmem => hcolon (mem_of_mem_toLower (by decide) hmem)⟩
  · rw [hvalue]
    refine Bytes.not_mem_join (by decide) fun part hpart => ?_
    obtain ⟨text, htext, rfl⟩ := List.mem_map.mp hpart
    intro hmem
    exact (hasLineBreak_eq_false_iff.mp (hplain text htext)).2
      (mem_of_mem_collapseBlanks (by decide) hmem)

end Canonical

/-! ## The whole text

The parts stand in lines of a fixed order. Only the block of headers has several lines, and its end
is an empty one. -/

namespace CanonicalRequest

open Canonical

variable {σ τ : Type} {request : Request σ} {other : Request τ} {config config' : Config}
  {hash hash' : Bytes} {canonical canonical' : CanonicalRequest}

/-- The text with the line feeds that end its parts. The payload hash has none behind it. -/
theorem text_eq (c : CanonicalRequest) :
    c.text = c.method ++ 10 :: (c.path ++ 10 :: (c.query ++ 10 ::
      (c.headers ++ 10 :: (c.signedHeaders ++ 10 :: c.payloadHash)))) := by
  simp [text, Signature.lines, Bytes.join, show ascii "\n" = [10] from rfl]

/-- The list of the signed names has no line feed, since no name has one. -/
theorem not_mem_signedHeaders {pairs : List (Bytes × Bytes)}
    (hpairs : ∀ pair ∈ pairs, PlainPair pair) :
    10 ∉ Bytes.join (ascii ";") (pairs.map (·.1)) := by
  refine Bytes.not_mem_join (by decide) fun part hpart => ?_
  obtain ⟨pair, hpair, rfl⟩ := List.mem_map.mp hpart
  exact (hpairs pair hpair).name.1

/-- **A canonical text determines the request that it stands for**, as far as the request is signed: method,
path and query, the signed headers with their values, and the payload hash. The two requests may be signed
under different configurations. The payload hash may be any bytes, line feeds included, because it comes
last. -/
theorem text_injective (hbuild : build request config hash = .ok canonical)
    (hbuild' : build other config' hash' = .ok canonical')
    (hnames : ∀ header ∈ request.headers.entries, 10 ∉ header.1 ∧ 58 ∉ header.1)
    (hnames' : ∀ header ∈ other.headers.entries, 10 ∉ header.1 ∧ 58 ∉ header.1)
    (htext : canonical.text = canonical'.text) :
    request.method = other.method
      ∧ canonical.path = canonical'.path
      ∧ canonical.query = canonical'.query
      ∧ (∃ pairs, headerPairs request.headers config.headerFilter = .ok pairs
        ∧ headerPairs other.headers config'.headerFilter = .ok pairs)
      ∧ canonical.signedHeaders = canonical'.signedHeaders
      ∧ hash = hash' := by
  obtain ⟨pairs, hpairs, rfl⟩ := build_ok hbuild
  obtain ⟨pairs', hpairs', rfl⟩ := build_ok hbuild'
  have hplain := plain_of_headerPairs hpairs hnames
  have hplain' := plain_of_headerPairs hpairs' hnames'
  -- The parts are taken off one by one, the block of headers as a whole.
  rw [text_eq, text_eq] at htext
  obtain ⟨hmethod, htext⟩ :=
    Bytes.append_cons_inj request.method.not_mem_text other.method.not_mem_text htext
  obtain ⟨hpath, htext⟩ :=
    Bytes.append_cons_inj (not_mem_canonicalPath _ _ _) (not_mem_canonicalPath _ _ _) htext
  obtain ⟨hquery, htext⟩ :=
    Bytes.append_cons_inj (not_mem_canonicalQuery _ _) (not_mem_canonicalQuery _ _) htext
  -- The headers are a part with line feeds of its own, so it ends with its empty line and not with the
  -- first.
  obtain ⟨rfl, htext⟩ := headerBlock_injective hplain hplain' htext
  obtain ⟨hsigned, hhash⟩ :=
    Bytes.append_cons_inj (not_mem_signedHeaders hplain) (not_mem_signedHeaders hplain) htext
  exact ⟨Method.eq_of_text_eq hmethod, hpath, hquery, ⟨pairs, hpairs, hpairs'⟩, hsigned, hhash⟩

/-- Two requests that are told apart by the spelling of a path, a name and a value only. -/
def tidyRequest : Request MemorySource where
  path := ascii "/a/b"
  headers := Fields.ofList .caseInsensitive [(ascii "Host", ascii "h"), (ascii "X-A", ascii "a b")]

def untidyRequest : Request MemorySource where
  path := ascii "/a//./b"
  headers := Fields.ofList .caseInsensitive
    [(ascii "x-a", ascii " a  b"), (ascii "HOST", ascii "h"), (ascii "Expect", ascii "\r\n")]

/-- A payload hash that looks like the end of a block of headers. -/
def deceptiveHash : Bytes := ascii "x-a:a b\n\nhost"

/-- The two requests have one text. The hash that looks like the end of a block does not confuse it with
another. -/
theorem text_injective_of_spellings :
    ∃ canonical canonical', build tidyRequest {} deceptiveHash = .ok canonical
      ∧ build untidyRequest {} deceptiveHash = .ok canonical'
      ∧ (∀ header ∈ tidyRequest.headers.entries, 10 ∉ header.1 ∧ 58 ∉ header.1)
      ∧ (∀ header ∈ untidyRequest.headers.entries, 10 ∉ header.1 ∧ 58 ∉ header.1)
      ∧ canonical.text = canonical'.text
      ∧ tidyRequest.method = untidyRequest.method
      ∧ canonical.path = canonical'.path
      ∧ canonical.query = canonical'.query
      ∧ (∃ pairs, headerPairs tidyRequest.headers none = .ok pairs
        ∧ headerPairs untidyRequest.headers none = .ok pairs)
      ∧ canonical.signedHeaders = canonical'.signedHeaders
      ∧ deceptiveHash = deceptiveHash := by
  have hbuild : build tidyRequest {} deceptiveHash = .ok _ := rfl
  have hbuild' : build untidyRequest {} deceptiveHash = .ok _ := rfl
  have hnames : ∀ header ∈ tidyRequest.headers.entries, 10 ∉ header.1 ∧ 58 ∉ header.1 := by decide
  have hnames' : ∀ header ∈ untidyRequest.headers.entries, 10 ∉ header.1 ∧ 58 ∉ header.1 := by
    decide
  refine ⟨_, _, hbuild, hbuild', hnames, hnames', ?_, ?_⟩
  · decide
  · exact text_injective hbuild hbuild' hnames hnames' (by decide)

end CanonicalRequest

end SigV4
