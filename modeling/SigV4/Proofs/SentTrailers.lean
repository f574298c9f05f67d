import SigV4.Proofs.ChunkRoundTrip
import SigV4.Proofs.Collections
import SigV4.Proofs.Words
import Mathlib.Logic.Relation

/-!
# The trailers that are signed are those that are sent

The trailers of a stream are signed as one text and sent as lines, which are taken from that text again:

* **`Chunked.wireLines_append_line`**: a line feed in the text is a line break on the wire and nothing else is
  changed. A name may have line feeds in it as well, so the induction is on what stands in front of the
  line feed that ends a trailer.
* **`Chunked.canonicalTrailers_of_restyles`**: the text does not depend on how the trailers were declared, as
  a sorted list is determined by what is in it.
* **`ChunkContext.encode_eq_sent`**: in front of the trailers stand the frames, the last of them with the
  signature that the trailers are signed from.
-/

namespace SigV4

namespace Chunked

/-! ## Lines -/

/-- The text with a line break of the wire for each of its line feeds. -/
def withLineBreaks (text : Bytes) : Bytes := text.flatMap fun b => if b = 10 then crlf else [b]

@[simp] theorem withLineBreaks_append (front rest : Bytes) :
    withLineBreaks (front ++ rest) = withLineBreaks front ++ withLineBreaks rest := List.flatMap_append

@[simp] theorem withLineBreaks_nil : withLineBreaks [] = [] := rfl

@[simp] theorem withLineBreaks_lineFeed (rest : Bytes) :
    withLineBreaks (10 :: rest) = crlf ++ withLineBreaks rest := rfl

/-- A text without line feeds stays as it is. -/
theorem withLineBreaks_eq_self {text : Bytes} (h : 10 ∉ text) : withLineBreaks text = text := by
  have hbyte : ∀ b ∈ text, (if b = 10 then crlf else [b]) = [b] := by
    intro b hb
    exact if_neg (ne_of_mem_of_not_mem hb h)
  rw [withLineBreaks, List.flatMap_congr hbyte, List.flatMap_singleton']

@[simp] theorem wireLines_nil : wireLines [] = [] := by
  rw [wireLines]
  rfl

/-- The first line feed ends the first line. -/
theorem wireLines_line {line : Bytes} (h : 10 ∉ line) (rest : Bytes) :
    wireLines (line ++ 10 :: rest) = line ++ crlf ++ wireLines rest := by
  have hcut : Bytes.cut? [10] (line ++ 10 :: rest) = some (line, rest) := by
    have hneedle : line ++ 10 :: rest = line ++ [10] ++ rest := by simp
    rw [hneedle]
    exact Bytes.cut?_append h rest
  rw [wireLines]
  split
  next hnone => exact absurd (hcut.symm.trans hnone) (by simp)
  next line' rest' hsome =>
    obtain ⟨rfl, rfl⟩ := Prod.mk.inj (Option.some.inj (hcut.symm.trans hsome))
    rfl

/-- Every line feed of the text becomes a line break on the wire, whatever follows. A name may have line
feeds of its own, so this is by induction on the length of the text in front of the last one and not on the
trailers. -/
theorem wireLines_append_line (text rest : Bytes) :
    wireLines (text ++ 10 :: rest) = withLineBreaks (text ++ [10]) ++ wireLines rest := by
  induction hlength : text.length using Nat.strongRecOn generalizing text with
  | ind n ih =>
    by_cases hmem : 10 ∈ text
    · obtain ⟨line, others, rfl, hline⟩ := List.eq_append_cons_of_mem hmem
      have hless : others.length < n := by
        rw [← hlength, List.length_append, List.length_cons]
        omega
      rw [List.append_assoc, List.cons_append, wireLines_line hline, ih _ hless others rfl]
      simp [withLineBreaks_eq_self hline]
    · rw [wireLines_line hmem]
      simp [withLineBreaks_eq_self hmem]

/-! ## The canonical text

Names in lower case and values with collapsed blanks, sorted by name. Trailers that are declared in
another way but have the same canonical pairs have the same text. -/

/-- A trailer as it is signed. -/
def canonicalTrailer (entry : Bytes × Bytes) : Bytes × Bytes := (toLower entry.1, collapseBlanks entry.2)

/-- The line of a canonical trailer. -/
def trailerLine (entry : Bytes × Bytes) : Bytes := entry.1 ++ ascii ":" ++ entry.2 ++ ascii "\n"

/-- The canonical text is made of the lines of the canonical trailers, sorted. -/
theorem canonicalTrailers_eq (trailers : List (Bytes × Bytes)) :
    canonicalTrailers trailers
      = (Ordered.sort Bytes.pairBefore (trailers.map canonicalTrailer)).flatMap trailerLine := rfl

/-- What is sent is what was signed, line feeds apart. The induction is on the sorted trailers, each of
which ends with a line feed. -/
theorem wireLines_canonicalTrailers (trailers : List (Bytes × Bytes)) :
    wireLines (canonicalTrailers trailers) = withLineBreaks (canonicalTrailers trailers) := by
  rw [canonicalTrailers_eq]
  induction Ordered.sort Bytes.pairBefore (trailers.map canonicalTrailer) with
  | nil => exact wireLines_nil
  | cons entry entries ih =>
    have hline (rest : Bytes) :
        trailerLine entry ++ rest = entry.1 ++ ascii ":" ++ entry.2 ++ 10 :: rest := by
      simp [trailerLine, show ascii "\n" = [10] from rfl]
    rw [List.flatMap_cons, hline, wireLines_append_line, ih, ← withLineBreaks_append]
    congr 1
    simp

/-- Another way to declare the same trailers. -/
inductive Restyles (trailers : List (Bytes × Bytes)) : List (Bytes × Bytes) → Prop
  | permuted {others : List (Bytes × Bytes)} (hothers : others.Perm trailers) : Restyles trailers others
  /-- Names in another case. -/
  | respelled {others : List (Bytes × Bytes)}
      (hothers : List.Forall₂ (fun other entry => toLower other.1 = toLower entry.1 ∧ other.2 = entry.2)
        others trailers) : Restyles trailers others
  /-- Some of the values, or all of them, trimmed and collapsed. -/
  | collapsed {others : List (Bytes × Bytes)}
      (hothers : List.Forall₂ (fun other entry => other.1 = entry.1
        ∧ (other.2 = entry.2 ∨ other.2 = collapseBlanks entry.2)) others trailers) :
      Restyles trailers others

variable {trailers others : List (Bytes × Bytes)}

/-- Trailers that have the same canonical form, one by one. -/
theorem map_canonicalTrailer_of_forall₂ {R : Bytes × Bytes → Bytes × Bytes → Prop}
    (hR : ∀ other entry, R other entry → canonicalTrailer other = canonicalTrailer entry)
    (h : List.Forall₂ R others trailers) : others.map canonicalTrailer = trailers.map canonicalTrailer := by
  induction h with
  | nil => rfl
  | cons hentry _ ih => rw [List.map_cons, List.map_cons, hR _ _ hentry, ih]

/-- One step: the same canonical trailers, in any order. -/
theorem Restyles.perm (h : Restyles trailers others) :
    (others.map canonicalTrailer).Perm (trailers.map canonicalTrailer) := by
  cases h with
  | permuted hothers => exact hothers.map canonicalTrailer
  | respelled hothers =>
    refine .of_eq (map_canonicalTrailer_of_forall₂ (fun other entry hentry => ?_) hothers)
    rw [canonicalTrailer, hentry.1, hentry.2]
    rfl
  | collapsed hothers =>
    refine .of_eq (map_canonicalTrailer_of_forall₂ (fun other entry ⟨hname, hvalue⟩ => ?_) hothers)
    have hcollapse : collapseBlanks other.2 = collapseBlanks entry.2 := by
      rcases hvalue with hvalue | hvalue
      · rw [hvalue]
      · rw [hvalue, collapseBlanks_of_collapsed (collapsed_collapseBlanks entry.2)]
    rw [canonicalTrailer, hname, hcollapse]
    rfl

/-- Any number of steps, by induction on them. -/
theorem perm_of_restyles (h : Relation.ReflTransGen Restyles trailers others) :
    (others.map canonicalTrailer).Perm (trailers.map canonicalTrailer) := by
  induction h with
  | refl => exact .refl _
  | tail _ hstep ih => exact hstep.perm.trans ih

/-- The canonical text does not depend on how the trailers were declared, as a sorted list is determined by
what is in it. -/
theorem canonicalTrailers_of_restyles (h : Relation.ReflTransGen Restyles trailers others) :
    canonicalTrailers others = canonicalTrailers trailers := by
  rw [canonicalTrailers_eq, Bytes.sort_eq_sort_iff.mpr (perm_of_restyles h), canonicalTrailers_eq]

/-- Trailers declared in another way are as many. -/
theorem eq_nil_iff_of_restyles (h : Relation.ReflTransGen Restyles trailers others) :
    others = [] ↔ trailers = [] := by
  have hlength := (perm_of_restyles h).length_eq
  rw [List.length_map, List.length_map] at hlength
  rw [← List.length_eq_zero_iff, hlength, List.length_eq_zero_iff]

end Chunked

/-! ## The text that is sent

The wire has line breaks where the canonical text has line feeds, and a signature for all of it. -/

namespace ChunkContext

variable (c : ChunkContext)

/-- The frames of these chunks, signed from `previous` on. -/
def dataFramesFrom (previous : Bytes) : List Bytes → List Segment
  | [] => []
  | data :: rest =>
    let signature := c.signChunk previous data
    let segment : Segment := ⟨Chunked.frame data signature, signature.getD previous⟩
    segment :: dataFramesFrom segment.signature rest

/-- The frames with data of a payload. -/
def dataFrames (payload : Bytes) : List Segment :=
  c.dataFramesFrom c.seed (Chunked.slices c.chunkSize.toNat payload)

/-- The signature of the chunk without data that ends a payload, in a stream that is signed. -/
def zeroSignature (payload : Bytes) : Bytes :=
  Signature.sign c.key <|
    Signature.chunkStringToSign c.amzDate c.scope (lastSignature c.seed (c.dataFrames payload)) (sha256Hex [])

/-- The signature of trailers with this canonical text, signed from the chunk without data. -/
def trailerSignature (payload canonical : Bytes) : Bytes :=
  Signature.sign c.key <|
    Signature.trailerStringToSign c.amzDate c.scope (c.zeroSignature payload) canonical

/-- Everything that is sent of a payload with these trailers: the frames, the lines of the trailers and,
where there are any in a signed stream, the signature over them. -/
def sent (payload : Bytes) (values : List (Bytes × Bytes)) : Bytes :=
  segmentTexts (c.dataFrames payload)
    ++ Chunked.frame [] (if c.signed then some (c.zeroSignature payload) else none)
    ++ Chunked.withLineBreaks (Chunked.canonicalTrailers values)
    ++ (if c.signed ∧ values ≠ [] then
        Chunked.trailerSignatureMark ++ c.trailerSignature payload (Chunked.canonicalTrailers values) ++ crlf
      else [])
    ++ crlf

variable {c : ChunkContext}

/-- Frames with data do not depend on the trailers. -/
theorem dataFramesFrom_trailers (c : ChunkContext) (trailers : List Trailer) (previous : Bytes)
    (slices : List Bytes) :
    ({ c with trailers } : ChunkContext).dataFramesFrom previous slices = c.dataFramesFrom previous slices := by
  induction slices generalizing previous with
  | nil => rfl
  | cons data rest ih =>
    rw [dataFramesFrom, dataFramesFrom, ih]
    rfl

/-- How the trailers are declared is not seen in what is sent. -/
theorem sent_of_restyles {values others : List (Bytes × Bytes)}
    (hothers : Relation.ReflTransGen Chunked.Restyles values others) (trailers : List Trailer)
    (payload : Bytes) :
    ({ c with trailers } : ChunkContext).sent payload others = c.sent payload values := by
  have hframes : ({ c with trailers } : ChunkContext).dataFrames payload = c.dataFrames payload :=
    c.dataFramesFrom_trailers trailers _ _
  simp only [sent, trailerSignature, zeroSignature, hframes, Chunked.canonicalTrailers_of_restyles hothers,
    ne_eq, Chunked.eq_nil_iff_of_restyles hothers]

/-- The text of the segments is that of the frames with data, of the frame without, and of what stands
behind it. The induction is on the chunks. -/
theorem segmentTexts_segmentsFrom (values : List (Bytes × Bytes)) {slices : List Bytes}
    (hslices : ∀ data ∈ slices, data ≠ []) (previous : Bytes) :
    segmentTexts (c.segmentsFrom values previous slices)
      = segmentTexts (c.dataFramesFrom previous slices)
        ++ (let last := lastSignature previous (c.dataFramesFrom previous slices)
          Chunked.frame [] (c.signChunk last []) ++ c.closing values ((c.signChunk last []).getD last)) := by
  induction slices generalizing previous with
  | nil =>
    unfold segmentsFrom closing
    by_cases htrailers : c.trailers = []
    · simp [htrailers, dataFramesFrom, chunkSegment]
    · simp [htrailers, dataFramesFrom, chunkSegment]
  | cons data rest ih =>
    have hdata : data.isEmpty = false := by simpa using hslices data List.mem_cons_self
    have hrest : ∀ other ∈ rest, other ≠ [] := fun other hother =>
      hslices other (List.mem_cons_of_mem data hother)
    rw [segmentsFrom, segmentTexts_cons, ih hrest, dataFramesFrom, segmentTexts_cons, lastSignature_cons]
    simp [chunkSegment, hdata]

/-- What stands behind the frames: the lines of the trailers, a signature over them where chunks are signed,
and an empty line. Without trailers it is the empty line only. -/
theorem closing_eq {values : List (Bytes × Bytes)} (hvalues : c.trailers = [] ↔ values = []) (last : Bytes) :
    c.closing values last = Chunked.withLineBreaks (Chunked.canonicalTrailers values)
      ++ (if c.signed ∧ values ≠ [] then
          Chunked.trailerSignatureMark ++ Signature.sign c.key (Signature.trailerStringToSign c.amzDate
            c.scope last (Chunked.canonicalTrailers values)) ++ crlf
        else [])
      ++ crlf := by
  unfold closing
  by_cases hnil : values = []
  · have htrailers := hvalues.mpr hnil
    subst hnil
    simp [htrailers, Chunked.canonicalTrailers_eq, Ordered.sort]
  · have htrailers : c.trailers ≠ [] := fun h => hnil (hvalues.mp h)
    rw [if_neg (by simpa using htrailers), ← Chunked.wireLines_canonicalTrailers]
    cases hsigned : c.signed with
    | false => simp [trailerSegment, Chunked.trailerBlock, signTrailers, hsigned]
    | true => simp [trailerSegment, Chunked.trailerBlock, signTrailers, hsigned, hnil]

/-- The encoding of a payload is what is said to be sent. Both start with the frames, and the last of these
is signed from the frames with data. -/
theorem encode_eq_sent {values : List (Bytes × Bytes)} (hvalues : c.trailers = [] ↔ values = [])
    (payload : Bytes) : c.encode values payload = c.sent payload values := by
  have hslices : ∀ data ∈ Chunked.slices c.chunkSize.toNat payload, data ≠ [] :=
    fun data hdata => Chunked.mem_slices_ne_nil hdata
  show segmentTexts (c.segmentsFrom values c.seed _) = _
  rw [segmentTexts_segmentsFrom values hslices]
  dsimp only
  rw [closing_eq hvalues, sent, trailerSignature, zeroSignature, dataFrames]
  cases hsigned : c.signed with
  | false => simp [signChunk, hsigned]
  | true => simp [signChunk, hsigned]

end ChunkContext

namespace ChunkStream

variable {ρ : Type} {pull : Pull ρ} {c : ChunkContext} {shared : Shared}

end ChunkStream

end SigV4
