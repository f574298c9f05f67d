import SigV4.Proofs.Refusals
import SigV4.Proofs.ResponseLines
import SigV4.Proofs.SignedHeaders

/-!
# Which responses are read

A response is read from a status line, header lines and an empty line, and everything else is refused as
a response with a fault. One text is refused in another way, though it has all of these lines: the one
whose status line ends where the version does.

* **`headers_isOk_iff`**: header lines are read if each has a name.
* **`parse_avoids`**: a response is refused for no other reasons.
* **`parse_returns_iff`**: so the responses that are read are those with a well-formed head, but for a
  status line that is cut.
-/

namespace SigV4

/-- All elements have results if each of them has one, and only then: going through the list stops at the
first that has none. -/
theorem Outcome.exists_mapM_eq_ok_iff {α β : Type} {f : α → Outcome β} {xs : List α} :
    (∃ ys, xs.mapM f = .ok ys) ↔ ∀ x ∈ xs, ∃ y, f x = .ok y := by
  simp only [mapM_eq_ok_iff]
  induction xs with
  | nil => simp
  | cons x xs ih => simp [List.forall₂_cons_left_iff, ← ih]

namespace Response

/-- A header line has a colon, with a name in front of it. -/
structure IsHeaderLine (line : Bytes) : Prop extends IsLine line where
  colon : 58 ∈ line
  name : line.head? ≠ some 58

/-- The text starts with a status line, header lines and an empty line. -/
def HasHead (raw : Bytes) : Prop :=
  ∃ (version : Version) (status : Bytes) (lines : List Bytes) (body : Bytes),
    IsLine (version.text ++ status) ∧ (∀ line ∈ lines, IsHeaderLine line)
      ∧ raw = version.text ++ status ++ crlf ++ lines.flatMap (· ++ crlf) ++ crlf ++ body

/-- The first line is a version and nothing else. -/
def EndsBehindVersion (raw : Bytes) : Prop := ∃ version : Version, version.text ++ crlf <+: raw

open Outcome

variable {raw line : Bytes} {lines : List Bytes} {failure : Failure}

/-! ## Single lines -/

/-- A status line is read if it starts with a version and goes on behind it. What comes next is not looked
at before the status itself is taken from it. -/
theorem parseStatusLine_isOk_iff :
    (∃ parts, parseStatusLine line = .ok parts)
      ↔ (∃ version : Version, version.text <+: line) ∧ ∀ version : Version, line ≠ version.text := by
  rcases parseStatusLine_cases line with ⟨version, b, rest, rfl, hok⟩ | ⟨version, rfl, hcut⟩ | ⟨hnone, herror⟩
  · -- Neither version is the start of a longer one, so a line that goes on is not a version itself.
    refine iff_of_true ⟨_, hok⟩ ⟨⟨version, List.prefix_append _ _⟩, fun other hother => ?_⟩
    rw [hother, parseStatusLine_version] at hok
    exact absurd hok (by simp)
  · refine iff_of_false (fun ⟨parts, hok⟩ => ?_) fun h => h.2 version rfl
    rw [hcut] at hok
    exact absurd hok (by simp)
  · refine iff_of_false (fun ⟨parts, hok⟩ => ?_) fun ⟨⟨version, hversion⟩, _⟩ => hnone version hversion
    rw [herror] at hok
    exact absurd hok (by simp)

/-- A header line is read if it has a colon and does not start with one, so that there is a name. -/
theorem parseHeader_isOk_iff (hline : IsLine line) :
    (∃ header, parseHeader line = .ok header) ↔ IsHeaderLine line := by
  rcases parseHeader_cases line with ⟨name, value, hne, hname, rfl, hok⟩ | ⟨hfault, herror⟩
  · refine iff_of_true ⟨_, hok⟩ ⟨hline, by simp, fun hhead => ?_⟩
    cases name with
    | nil => exact hne rfl
    | cons b name => exact hname (Option.some.inj hhead ▸ List.mem_cons_self)
  · refine iff_of_false (fun ⟨header, hok⟩ => ?_) fun h => hfault.elim (· h.colon) h.name
    rw [herror] at hok
    exact absurd hok (by simp)

theorem headers_isOk_iff (hlines : ∀ line ∈ lines, IsLine line) :
    (∃ headers, lines.mapM parseHeader = .ok headers) ↔ ∀ line ∈ lines, IsHeaderLine line := by
  rw [exists_mapM_eq_ok_iff]
  exact forall₂_congr fun line hline => parseHeader_isOk_iff (hlines line hline)

/-! ## Responses -/

/-- A status line is refused as cut or for a fault, and for no other reason. -/
theorem parseStatusLine_avoids (hcut : .statusLineCut ≠ failure)
    (hfault : ∀ fault, .invalidInput (.response fault) ≠ failure) (line : Bytes) :
    Avoids failure (parseStatusLine line) := by
  rcases parseStatusLine_cases line with ⟨_, _, _, -, hline⟩ | ⟨_, -, hline⟩ | ⟨-, hline⟩
  · rw [hline]
    exact avoids_ok _
  · rw [hline]
    exact avoids_error hcut
  · rw [hline]
    exact avoids_error (hfault _)

/-- A header line is refused for a fault of the response. -/
theorem parseHeader_avoids (hfault : ∀ fault, .invalidInput (.response fault) ≠ failure)
    (line : Bytes) : Avoids failure (parseHeader line) := by
  rcases parseHeader_cases line with ⟨_, _, -, -, -, hline⟩ | ⟨-, hline⟩
  · rw [hline]
    exact avoids_ok _
  · rw [hline]
    exact avoids_error (hfault _)

/-- Behind the status line nothing fails but for a fault of the response. Of the status line only this is
asked, so that the lemma serves both for the line that is cut and for any failure. -/
theorem parse_avoids (hfault : ∀ fault, .invalidInput (.response fault) ≠ failure)
    (hstatus : ∀ line lines body?, headLines raw = (line :: lines, body?) →
      Avoids failure (parseStatusLine line)) : Avoids failure (parse raw) := by
  unfold parse
  split
  · exact avoids_error (hfault _)
  · exact avoids_error (hfault _)
  next statusLine lines body? hlines =>
    refine (hstatus statusLine lines body? hlines).bind fun (version, status) => ?_
    refine (Avoids.mapM fun line _ => parseHeader_avoids hfault line).bind fun headers => ?_
    split
    · exact avoids_error (hfault _)
    · exact avoids_ok _

/-- A response is read if its head is complete, its status line can be read and its header lines can. The
three conditions are those of the three steps, in their order. -/
theorem parse_isOk_iff :
    (∃ response, parse raw = .ok response)
      ↔ ∃ statusLine lines body, headLines raw = (statusLine :: lines, some body)
        ∧ (∃ parts, parseStatusLine statusLine = .ok parts) ∧ ∀ line ∈ lines, IsHeaderLine line := by
  -- The lines of a head have no line break inside, as the head was cut at the line breaks.
  have hvalid {statusLine : Bytes} {lines : List Bytes} {body : Bytes}
      (h : headLines raw = (statusLine :: lines, some body)) : ∀ line ∈ lines, IsLine line :=
    fun line hline => (headLines_eq_some_iff.mp h).1 line (List.mem_cons_of_mem _ hline)
  constructor
  · -- Each step of the reader returned, the body among them.
    rintro ⟨response, h⟩
    unfold parse at h
    split at h
    · exact absurd h (by simp)
    · exact absurd h (by simp)
    next statusLine lines body? hlines =>
      obtain ⟨parts, hparts, h⟩ := Outcome.bind_eq_ok.mp h
      obtain ⟨headers, hheaders, h⟩ := Outcome.bind_eq_ok.mp h
      cases body? with
      | none => exact absurd h (by simp)
      | some body =>
        exact ⟨statusLine, lines, body, hlines, ⟨parts, hparts⟩,
          (headers_isOk_iff (hvalid hlines)).mp ⟨headers, hheaders⟩⟩
  · rintro ⟨statusLine, lines, body, hlines, ⟨parts, hparts⟩, hnamed⟩
    obtain ⟨headers, hheaders⟩ := (headers_isOk_iff (hvalid hlines)).mpr hnamed
    unfold parse
    rw [hlines]
    dsimp only
    rw [hparts, hheaders]
    exact ⟨_, rfl⟩

/-- A text has a head if cutting it into lines finds one. Written and read, the lines are the same, since no
line of a head contains the break that ends it. -/
theorem hasHead_iff :
    HasHead raw ↔ ∃ statusLine lines body, headLines raw = (statusLine :: lines, some body)
      ∧ (∃ version : Version, version.text <+: statusLine) ∧ ∀ line ∈ lines, IsHeaderLine line := by
  constructor
  · rintro ⟨version, status, lines, body, hstatus, hlines, rfl⟩
    refine ⟨version.text ++ status, lines, body, ?_, ⟨version, List.prefix_append _ _⟩, hlines⟩
    refine headLines_eq_some_iff.mpr ⟨?_, ?_⟩
    · exact List.forall_mem_cons.mpr ⟨hstatus, fun line hline => (hlines line hline).toIsLine⟩
    · simp only [List.flatMap_cons, List.append_assoc]
  · rintro ⟨statusLine, lines, body, hhead, ⟨version, status, rfl⟩, hlines⟩
    obtain ⟨hvalid, rfl⟩ := headLines_eq_some_iff.mp hhead
    refine ⟨version, status, lines, body, hvalid _ List.mem_cons_self, hlines, ?_⟩
    simp only [List.flatMap_cons, List.append_assoc]

theorem isLine_version (version : Version) : IsLine version.text := by
  cases version
  · exact ⟨by decide, not_crlf_infix (by decide)⟩
  · exact ⟨by decide, not_crlf_infix (by decide)⟩

/-- The first line is a version and nothing else just if that is what cutting the text finds first, whether
or not the head is complete. -/
theorem endsBehindVersion_iff :
    EndsBehindVersion raw
      ↔ ∃ (version : Version) (lines : List Bytes) (body? : Option Bytes),
        headLines raw = (version.text :: lines, body?) := by
  refine exists_congr fun version => ?_
  rw [headLines_eq_cons_iff, and_iff_right (isLine_version version)]

/-- A response is read exactly if it has a head and its status line is not cut. This is `parse_isOk_iff`
with both conditions read off the text: the status line that is found is the one with which the text starts.
-/
theorem parse_isOk_iff_hasHead :
    (∃ response, parse raw = .ok response) ↔ HasHead raw ∧ ¬ EndsBehindVersion raw := by
  rw [parse_isOk_iff, hasHead_iff, endsBehindVersion_iff]
  constructor
  · rintro ⟨statusLine, lines, body, hlines, hstatus, hnamed⟩
    obtain ⟨hversion, hlong⟩ := parseStatusLine_isOk_iff.mp hstatus
    refine ⟨⟨statusLine, lines, body, hlines, hversion, hnamed⟩, ?_⟩
    -- There is one first line, and it goes on behind the version.
    rintro ⟨version, others, body?, hcut⟩
    rw [hlines] at hcut
    exact hlong version (List.cons.inj (Prod.mk.inj hcut).1).1
  · rintro ⟨⟨statusLine, lines, body, hlines, hversion, hnamed⟩, hlong⟩
    refine ⟨statusLine, lines, body, hlines, parseStatusLine_isOk_iff.mpr ⟨hversion, ?_⟩, hnamed⟩
    rintro version rfl
    exact hlong ⟨version, lines, some body, hlines⟩

/-- A response is refused as cut exactly if its first line is a version and nothing else. No later step
fails so, and no earlier one comes between. -/
theorem parse_eq_cut_iff : parse raw = .error .statusLineCut ↔ EndsBehindVersion raw := by
  rw [endsBehindVersion_iff]
  constructor
  · intro h
    by_contra hnot
    refine parse_avoids (by simp) (fun line lines body? hlines => ?_) h
    -- Only one of the three ways in which a status line is read leads here.
    rcases parseStatusLine_cases line with ⟨_, _, _, -, hline⟩ | ⟨version, rfl, -⟩ | ⟨-, hline⟩
    · rw [hline]
      exact avoids_ok _
    · exact absurd ⟨version, lines, body?, hlines⟩ hnot
    · rw [hline]
      exact avoids_error (by simp)
  · rintro ⟨version, lines, body?, hlines⟩
    unfold parse
    rw [hlines]
    dsimp only
    rw [parseStatusLine_version]
    rfl

/-- **Which responses are read.** A response is read exactly if its head is well-formed and its status
line goes on behind the version. It is refused as cut exactly if the status line does not, whatever
follows, and in all other cases for a fault. -/
theorem parse_returns_iff (raw : Bytes) :
    ((∃ response, parse raw = .ok response) ↔ HasHead raw ∧ ¬ EndsBehindVersion raw)
      ∧ (parse raw = .error .statusLineCut ↔ EndsBehindVersion raw)
      ∧ ∀ failure, parse raw = .error failure →
        failure = .statusLineCut ∨ ∃ fault, failure = .invalidInput (.response fault) := by
  refine ⟨parse_isOk_iff_hasHead, parse_eq_cut_iff, fun failure h => ?_⟩
  by_contra hnot
  rw [not_or, not_exists] at hnot
  refine parse_avoids (fun fault heq => hnot.2 fault heq.symm) (fun line _ _ _ => ?_) h
  exact parseStatusLine_avoids (fun heq => hnot.1 heq.symm) (fun fault heq => hnot.2 fault heq.symm) line

/-- The head is well-formed, and yet it is not read, nor refused for a fault. -/
theorem parse_misses_status :
    HasHead (ascii "HTTP/1.1\r\n\r\n")
      ∧ (¬ ∃ response, parse (ascii "HTTP/1.1\r\n\r\n") = .ok response)
      ∧ ¬ ∃ fault, parse (ascii "HTTP/1.1\r\n\r\n") = .error (.invalidInput (.response fault)) := by
  have hcut : parse (ascii "HTTP/1.1\r\n\r\n") = .error .statusLineCut := rfl
  refine ⟨⟨.http11, [], [], [], isLine_version .http11, by simp, rfl⟩, ?_, ?_⟩
  · rintro ⟨response, h⟩
    rw [hcut] at h
    exact absurd h (by simp)
  · rintro ⟨fault, h⟩
    rw [hcut] at h
    exact absurd h (by simp)

end Response

end SigV4
