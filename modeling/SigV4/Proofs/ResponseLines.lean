import SigV4.Proofs.LineBreaks
import SigV4.Response

/-!
# Heads, line by line

A head is cut at its line ends up to the first empty line, whatever bytes stand in the lines and behind
them. Every text falls into its first line and a rest, or has no line at all (`exists_first_line`), so
what a head was cut into says what it is:

* **`headLines_eq_some_iff`**: lines and body are those that the text was put together from.
* **`headLines_eq_cons_iff`**: the first line is known however the text goes on.
* **`parseStatusLine_cases`**, **`parseHeader_cases`**: what each line may be, and what is read from it.
-/

namespace SigV4

/-- Text that is one line of a head, and not the empty one. -/
structure IsLine (text : Bytes) : Prop where
  ne_nil : text ≠ []
  unbroken : ¬ crlf <:+: text

theorem not_crlf_infix {text : Bytes} (h : hasLineBreak text = false) : ¬ crlf <:+: text := by
  intro hcrlf
  exact (hasLineBreak_eq_false_iff.mp h).1 (hcrlf.subset List.mem_cons_self)

/-- Every text falls into its first line and a rest, or has no line end at all. The induction is on the
text. -/
theorem exists_first_line (raw : Bytes) :
    ¬ crlf <:+: raw ∨ ∃ line rest, ¬ crlf <:+: line ∧ raw = line ++ crlf ++ rest := by
  have hnil : ¬ crlf <:+: [] := by decide
  induction raw with
  | nil => exact .inl hnil
  | cons b raw ih =>
    by_cases hhere : crlf <+: b :: raw
    · obtain ⟨rest, hrest⟩ := hhere
      exact .inr ⟨[], rest, hnil, hrest.symm⟩
    · rcases ih with hnone | ⟨line, rest, hline, rfl⟩
      · exact .inl fun h => (List.infix_cons_iff.mp h).elim hhere hnone
      · -- A line end within the longer line would be at its start, or in the line that has none.
        refine .inr ⟨b :: line, rest, fun h => ?_, by simp⟩
        rcases List.infix_cons_iff.mp h with hprefix | hinfix
        · apply hhere
          rw [List.append_assoc, ← List.cons_append]
          exact hprefix.trans (List.prefix_append _ _)
        · exact hline hinfix

namespace Response

variable {line text raw body : Bytes} {lines : List Bytes}

/-! ## Cutting into lines

A head ends with an empty line. What follows it is the body, whatever it looks like. -/

/-- A byte that starts no line end belongs to the current line. -/
theorem headLines_go_cons {b : UInt8} {rest : Bytes} (h : ¬ crlf <+: b :: rest) (line : Bytes) :
    headLines.go line (b :: rest) = headLines.go (b :: line) rest := by
  rw [headLines.go]
  rintro rest' rfl rfl
  exact h (List.prefix_append crlf rest')

/-- Text without line ends belongs to the current line. What has to be ruled out is a line end that starts
in the text and ends behind it. -/
theorem headLines_go_append (htext : ¬ crlf <:+: text) (line rest : Bytes) :
    headLines.go line (text ++ crlf ++ rest) = headLines.go (text.reverse ++ line) (crlf ++ rest) := by
  induction text generalizing line with
  | nil => rfl
  | cons b text ih =>
    rw [List.infix_cons_iff, not_or] at htext
    have hnot : ¬ crlf <+: b :: (text ++ crlf ++ rest) := by
      intro hprefix
      obtain ⟨hb, hnext⟩ := List.cons_prefix_cons.mp hprefix
      -- The next byte is one of the text, or the first one of the line end that follows.
      cases text with
      | nil => exact absurd hnext (by simp [crlf])
      | cons c text =>
        obtain ⟨hc, -⟩ := List.cons_prefix_cons.mp hnext
        apply htext.1
        rw [← hb, ← hc]
        exact List.prefix_append crlf text
    rw [List.cons_append, List.cons_append, headLines_go_cons hnot, ih htext.2, List.reverse_cons,
      List.append_assoc]
    rfl

/-- Without a line end no line is complete. -/
theorem headLines_go_unended (htext : ¬ crlf <:+: text) (line : Bytes) :
    headLines.go line text = ([], none) := by
  induction text generalizing line with
  | nil => rfl
  | cons b text ih =>
    rw [List.infix_cons_iff, not_or] at htext
    rw [headLines_go_cons htext.1, ih htext.2]

/-- So a text without line ends has no lines, and the head does not end. -/
theorem headLines_unended (htext : ¬ crlf <:+: text) : headLines text = ([], none) :=
  headLines_go_unended htext []

theorem headLines_crlf (rest : Bytes) : headLines (crlf ++ rest) = ([], some rest) := rfl

theorem headLines_cons (h : IsLine line) (rest : Bytes) :
    headLines (line ++ crlf ++ rest) = (line :: (headLines rest).1, (headLines rest).2) := by
  have hend : (line.reverse ++ []).isEmpty = false := by simpa using h.ne_nil
  rw [headLines, headLines_go_append h.unbroken]
  show headLines.go (line.reverse ++ []) (13 :: 10 :: rest) = _
  rw [headLines.go, hend, if_neg Bool.false_ne_true, List.append_nil, List.reverse_reverse]
  rfl

/-- **Lines are read back** up to the first empty one, with whatever stands behind it as the body. The
induction is on the lines. -/
theorem headLines_flatMap (hlines : ∀ line ∈ lines, IsLine line) (rest : Bytes) :
    headLines (lines.flatMap (· ++ crlf) ++ crlf ++ rest) = (lines, some rest) := by
  induction lines with
  | nil => rfl
  | cons line lines ih =>
    have hothers := ih fun other hother => hlines other (List.mem_cons_of_mem line hother)
    rw [List.flatMap_cons, List.append_assoc, List.append_assoc,
      headLines_cons (hlines line List.mem_cons_self), ← List.append_assoc, hothers]

/-- What the first line of a text is, if there is one, and what remains to be cut. The three cases exclude
each other. -/
theorem headLines_cases (raw : Bytes) :
    headLines raw = ([], none) ∧ ¬ crlf <:+: raw
      ∨ (∃ rest, raw = crlf ++ rest ∧ headLines raw = ([], some rest))
      ∨ ∃ line rest, IsLine line ∧ raw = line ++ crlf ++ rest
        ∧ headLines raw = (line :: (headLines rest).1, (headLines rest).2) := by
  rcases exists_first_line raw with hnone | ⟨line, rest, hline, rfl⟩
  · exact .inl ⟨headLines_unended hnone, hnone⟩
  · by_cases hempty : line = []
    · rw [hempty]
      exact .inr (.inl ⟨rest, rfl, headLines_crlf rest⟩)
    · have hisLine : IsLine line := ⟨hempty, hline⟩
      exact .inr (.inr ⟨line, rest, hisLine, rfl, headLines_cons hisLine rest⟩)

/-- A head without lines is an empty line. -/
theorem eq_of_headLines_nil (h : headLines raw = ([], some body)) : raw = crlf ++ body := by
  rcases headLines_cases raw with ⟨hraw, -⟩ | ⟨rest, rfl, hraw⟩ | ⟨line, rest, -, -, hraw⟩
  · rw [hraw] at h
    exact absurd (Prod.mk.inj h).2 (by simp)
  · rw [hraw] at h
    rw [Option.some.inj (Prod.mk.inj h).2]
  · rw [hraw] at h
    exact absurd (Prod.mk.inj h).1 (by simp)

/-- The first line of a head stands at the start of the text, and the others are the lines of the rest. -/
theorem exists_of_headLines_cons {body? : Option Bytes} (h : headLines raw = (line :: lines, body?)) :
    ∃ rest, IsLine line ∧ raw = line ++ crlf ++ rest ∧ headLines rest = (lines, body?) := by
  rcases headLines_cases raw with ⟨hraw, -⟩ | ⟨rest, rfl, hraw⟩ | ⟨first, rest, hfirst, rfl, hraw⟩
  · rw [hraw] at h
    exact absurd (Prod.mk.inj h).1 (by simp)
  · rw [hraw] at h
    exact absurd (Prod.mk.inj h).1 (by simp)
  · rw [hraw] at h
    obtain ⟨hlines, hbody⟩ := Prod.mk.inj h
    obtain ⟨rfl, hothers⟩ := List.cons.inj hlines
    exact ⟨rest, hfirst, rfl, Prod.ext hothers hbody⟩

/-- **A head is cut into what it was put together from**, and this in one way only. The induction is on the
lines. -/
theorem headLines_eq_some_iff :
    headLines raw = (lines, some body)
      ↔ (∀ line ∈ lines, IsLine line) ∧ raw = lines.flatMap (· ++ crlf) ++ crlf ++ body := by
  constructor
  · intro h
    induction lines generalizing raw with
    | nil => exact ⟨by simp, eq_of_headLines_nil h⟩
    | cons line lines ih =>
      obtain ⟨rest, hline, rfl, hrest⟩ := exists_of_headLines_cons h
      obtain ⟨hlines, rfl⟩ := ih hrest
      refine ⟨List.forall_mem_cons.mpr ⟨hline, hlines⟩, ?_⟩
      simp only [List.flatMap_cons, List.append_assoc]
  · rintro ⟨hlines, rfl⟩
    exact headLines_flatMap hlines body

/-- The first line is known before the end of the head is, so it can be judged while the rest is still to
come. -/
theorem headLines_eq_cons_iff :
    (∃ lines body?, headLines raw = (line :: lines, body?)) ↔ IsLine line ∧ line ++ crlf <+: raw := by
  constructor
  · rintro ⟨lines, body?, h⟩
    obtain ⟨rest, hline, rfl, -⟩ := exists_of_headLines_cons h
    exact ⟨hline, List.prefix_append _ _⟩
  · rintro ⟨hline, rest, rfl⟩
    exact ⟨_, _, headLines_cons hline rest⟩

/-! ## Reading a line -/

/-- A version is found at the start of a line. -/
theorem find?_version (version : Version) (rest : Bytes) :
    [Version.http10, .http11].find? (·.text.isPrefixOf (version.text ++ rest)) = some version := by
  cases version <;> rfl

/-- A line that ends with the version is cut short. -/
theorem parseStatusLine_version (version : Version) :
    parseStatusLine version.text = .error .statusLineCut := by
  cases version <;> rfl

theorem parseStatusLine_append (version : Version) (b : UInt8) (rest : Bytes) :
    parseStatusLine (version.text ++ b :: rest) = .ok (version, .ofLine rest) := by
  rw [parseStatusLine, find?_version]
  dsimp only
  rw [List.drop_left]

/-- A line starts with a version and goes on, or it ends there, or it has no version. -/
theorem parseStatusLine_cases (line : Bytes) :
    (∃ version b rest, line = version.text ++ b :: rest
        ∧ parseStatusLine line = .ok (version, .ofLine rest))
      ∨ (∃ version : Version, line = version.text ∧ parseStatusLine line = .error .statusLineCut)
      ∨ (∀ version : Version, ¬ version.text <+: line)
        ∧ parseStatusLine line = .error (.invalidInput (.response .versionUnsupported)) := by
  by_cases hversion : ∃ version : Version, version.text <+: line
  · obtain ⟨version, rest, rfl⟩ := hversion
    cases rest with
    | nil =>
      rw [List.append_nil]
      exact .inr (.inl ⟨version, rfl, parseStatusLine_version version⟩)
    | cons b rest => exact .inl ⟨version, b, rest, rfl, parseStatusLine_append version b rest⟩
  · rw [not_exists] at hversion
    have hnone : [Version.http10, .http11].find? (·.text.isPrefixOf line) = none :=
      List.find?_eq_none.mpr fun version _ h => hversion version (List.isPrefixOf_iff_prefix.mp h)
    refine .inr (.inr ⟨hversion, ?_⟩)
    rw [parseStatusLine, hnone]

/-- A line with a name in front of its first colon is a header, with blanks behind the colon left out. -/
theorem parseHeader_append {name : Bytes} (hne : name ≠ []) (hname : 58 ∉ name) (value : Bytes) :
    parseHeader (name ++ 58 :: value) = .ok (name, value.dropWhile isBlank) := by
  have hcut : Bytes.cut? (ascii ":") (name ++ 58 :: value) = some (name, value) := by
    have happend : name ++ 58 :: value = name ++ [58] ++ value := by simp
    rw [happend]
    exact Bytes.cut?_append hname value
  rw [parseHeader, hcut]
  cases name with
  | nil => exact absurd rfl hne
  | cons b name => rfl

/-- A line names a header in front of its first colon, or it has no name or no colon. -/
theorem parseHeader_cases (line : Bytes) :
    (∃ name value, name ≠ [] ∧ 58 ∉ name ∧ line = name ++ 58 :: value
        ∧ parseHeader line = .ok (name, value.dropWhile isBlank))
      ∨ (58 ∉ line ∨ line.head? = some 58)
        ∧ parseHeader line = .error (.invalidInput (.response .headerNameMissing)) := by
  by_cases hcolon : 58 ∈ line
  · obtain ⟨name, value, rfl, hname⟩ := List.eq_append_cons_of_mem hcolon
    cases name with
    | nil => exact .inr ⟨.inr rfl, rfl⟩
    | cons b name =>
      exact .inl ⟨b :: name, value, List.cons_ne_nil b name, hname, rfl,
        parseHeader_append (List.cons_ne_nil b name) hname value⟩
  · have hcut : Bytes.cut? (ascii ":") line = none := Bytes.cut?_eq_none hcolon
    refine .inr ⟨.inl hcolon, ?_⟩
    rw [parseHeader, hcut]

end Response

end SigV4
