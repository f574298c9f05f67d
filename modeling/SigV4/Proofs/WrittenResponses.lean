import SigV4.Proofs.InsertionOrder
import SigV4.Proofs.ResponseLines
import SigV4.Proofs.SignedHeaders

/-!
# Responses are read as they are written

A response is written as a status line, one line for each header, an empty line and the body. Between the
colon of a header and its value any blanks may stand.

* **`Status.eq_of_prefix`**: no two status texts start one line, so the status of a line is its only one.
* **`parseHeader_text`**: a header is read back without the blanks in front of its value.
* **`parse_written`**: so a response is read as it was written, whatever bytes its body has.
-/

namespace SigV4

/-! ## The status of a line -/

namespace Status

/-- The text of no status continues that of another. -/
theorem eq_of_prefix {status other : Status} {line : Bytes} (h : status.text <+: line)
    (hother : other.text <+: line) : status = other := by
  -- Both texts start one line, so one of them starts the other. No two of the texts do.
  rcases List.prefix_or_prefix_of_prefix h hother with hprefix | hprefix
  · revert hprefix
    cases status <;> cases other <;> decide
  · revert hprefix
    cases status <;> cases other <;> decide

/-- All statuses but the unknown one are searched for. -/
theorem mem_known {status : Status} (h : status ≠ unknown) : status ∈ known := by
  revert h
  cases status <;> decide

/-- A status is read from a line exactly if its text starts the line. -/
theorem prefix_iff_ofLine_eq {status : Status} (h : status ≠ unknown) (rest : Bytes) :
    status.text <+: rest ↔ ofLine rest = status := by
  rw [ofLine]
  cases hfind : known.find? (·.text.isPrefixOf rest) with
  | none =>
    have hnone := List.find?_eq_none.mp hfind status (mem_known h)
    exact iff_of_false (fun hprefix => hnone (List.isPrefixOf_iff_prefix.mpr hprefix)) h.symm
  | some found =>
    have hsome := List.find?_some hfind
    have hfound : found.text <+: rest := List.isPrefixOf_iff_prefix.mp hsome
    exact ⟨fun hprefix => eq_of_prefix hfound hprefix, fun heq => heq ▸ hfound⟩

end Status

namespace Response

/-! ## Headers as they are written

The blanks in front of a value are kept apart from it, as a reader drops them and nothing else. -/

/-- A header with the blanks that stand in front of its value. -/
structure WrittenHeader where
  name : Bytes
  blanks : Bytes
  value : Bytes

namespace WrittenHeader

/-- The header on its line. -/
def text (header : WrittenHeader) : Bytes :=
  header.name ++ ascii ":" ++ header.blanks ++ header.value

/-- What is to be read of it. -/
def field (header : WrittenHeader) : Bytes × Bytes := (header.name, header.value)

/-- The header stands on a line of its own, and its parts can be told apart. -/
structure Valid (header : WrittenHeader) : Prop where
  ne_nil : header.name ≠ []
  name : hasLineBreak header.name = false
  colon : 58 ∉ header.name
  blanks : ∀ b ∈ header.blanks, isBlank b = true
  value : hasLineBreak header.value = false
  start : ∀ b ∈ header.value.head?, isBlank b = false

variable {header : WrittenHeader}

/-- The text of a header is a line: it is not empty and has no line break. -/
theorem Valid.isLine (h : header.Valid) : IsLine header.text := by
  have hblanks : hasLineBreak header.blanks = false := by
    rw [hasLineBreak_eq_false_iff]
    exact ⟨fun hmem => absurd (h.blanks 13 hmem) (by decide),
      fun hmem => absurd (h.blanks 10 hmem) (by decide)⟩
  refine ⟨by simp [text, h.ne_nil], not_crlf_infix ?_⟩
  simp only [text, hasLineBreak_append, h.name, hblanks, h.value]
  decide

/-- **A header is read back**, without the blanks in front of its value. The name has no colon, so the first
colon is the one behind it, and the value starts with no blank, so it starts where the blanks end. -/
theorem Valid.parseHeader_text (h : header.Valid) : parseHeader header.text = .ok header.field := by
  have htext : header.text = header.name ++ 58 :: (header.blanks ++ header.value) := by
    rw [text, List.append_assoc, List.append_assoc]
    rfl
  have hvalue : (header.blanks ++ header.value).dropWhile isBlank = header.value := by
    rw [List.dropWhile_append_of_pos h.blanks]
    cases hheader : header.value with
    | nil => rfl
    | cons b value =>
      have hb : isBlank b = false := h.start b (by rw [hheader]; rfl)
      rw [List.dropWhile_cons_of_neg (by simp [hb])]
  rw [htext, parseHeader_append h.ne_nil h.colon, hvalue]
  rfl

end WrittenHeader

/-! ## Responses -/

/-- A response as it is sent; `status` is what follows the version and a blank on the first line. -/
def written (version : Version) (status : Bytes) (headers : List WrittenHeader) (body : Bytes) : Bytes :=
  version.text ++ ascii " " ++ status ++ crlf ++ headers.flatMap (·.text ++ crlf) ++ crlf ++ body

variable {version : Version} {status : Bytes} {headers : List WrittenHeader}

/-- The head of a response that was written is its status line and its headers. What follows the empty line
is the body, whatever it looks like. -/
theorem headLines_written (hstatus : hasLineBreak status = false)
    (hheaders : ∀ header ∈ headers, header.Valid) (body : Bytes) :
    headLines (written version status headers body)
      = ((version.text ++ ascii " " ++ status) :: headers.map (·.text), some body) := by
  have hline : IsLine (version.text ++ ascii " " ++ status) := by
    refine ⟨by simp [ascii, Bytes.ofChars], not_crlf_infix ?_⟩
    rw [hasLineBreak_append, hasLineBreak_append, hstatus]
    cases version <;> rfl
  refine headLines_eq_some_iff.mpr ⟨?_, ?_⟩
  · refine List.forall_mem_cons.mpr ⟨hline, fun line hline => ?_⟩
    obtain ⟨header, hheader, rfl⟩ := List.mem_map.mp hline
    exact (hheaders header hheader).isLine
  · rw [written, List.flatMap_cons, List.flatMap_map]

/-- **Responses are read as they are written.** Version and body come back as they are, the status is the
one whose text the status line has behind the version, and the headers are collected by name. -/
theorem parse_written (hstatus : hasLineBreak status = false)
    (hheaders : ∀ header ∈ headers, header.Valid) (body : Bytes) :
    ∃ response, parse (written version status headers body) = .ok response
      ∧ response.version = version
      ∧ (∀ other ≠ Status.unknown, other.text <+: status ↔ response.status = other)
      ∧ Fields.Collects (headers.map (·.field)) response.headers
      ∧ response.body = body := by
  have hfields : (headers.map (·.text)).mapM parseHeader = .ok (headers.map (·.field)) := by
    rw [Outcome.mapM_eq_ok_iff, List.forall₂_map_left_iff, List.forall₂_map_right_iff,
      List.forall₂_same]
    exact fun header hheader => (hheaders header hheader).parseHeader_text
  -- The reader takes the version off the front of the line, up to the blank.
  have hblank : version.text ++ ascii " " ++ status = version.text ++ 32 :: status := by
    rw [List.append_assoc]
    rfl
  refine ⟨⟨version, .ofLine status, .ofList _ (headers.map (·.field)), body⟩, ?_, rfl,
    fun other hother => Status.prefix_iff_ofLine_eq hother status, Fields.collects_ofList _, rfl⟩
  unfold parse
  rw [headLines_written hstatus hheaders]
  dsimp only
  rw [hblank, parseStatusLine_append, hfields]
  rfl

/-- One name in three spellings, an empty value, a value that ends in a blank, and colons in a value. -/
def scatteredHeaders : List WrittenHeader :=
  [⟨ascii "X-Id", [], ascii "first "⟩, ⟨ascii "Date", ascii " ", ascii "12:30:00"⟩,
    ⟨ascii "x-id", ascii " \t ", []⟩, ⟨ascii "X-ID", ascii "\t", ascii "third"⟩]

/-- The body looks like a head itself. -/
theorem parse_written_of_scattered_headers :
    hasLineBreak (ascii "503 Slow Down, please") = false
      ∧ (∀ header ∈ scatteredHeaders, header.Valid)
      ∧ ∃ response, parse (written .http10 (ascii "503 Slow Down, please") scatteredHeaders
            (crlf ++ crlf ++ ascii "X-Id: fourth" ++ crlf)) = .ok response
        ∧ response.version = .http10
        ∧ (∀ other ≠ Status.unknown,
          other.text <+: ascii "503 Slow Down, please" ↔ response.status = other)
        ∧ Fields.Collects (scatteredHeaders.map (·.field)) response.headers
        ∧ response.body = crlf ++ crlf ++ ascii "X-Id: fourth" ++ crlf := by
  have hstatus : hasLineBreak (ascii "503 Slow Down, please") = false := by decide
  have hheaders : ∀ header ∈ scatteredHeaders, header.Valid := by
    simp only [scatteredHeaders, List.forall_mem_cons]
    refine ⟨?_, ?_, ?_, ?_, by simp⟩
    all_goals exact ⟨by decide, by decide, by decide, by decide +kernel, by decide, by decide +kernel⟩
  exact ⟨hstatus, hheaders, parse_written hstatus hheaders _⟩

end Response

end SigV4
