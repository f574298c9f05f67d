import SigV4.Proofs.Cutting
import SigV4.Text
import SigV4.Timestamp

/-!
# Texts without line breaks

Which bytes a text may have follows from how it was made. Lower-casing makes letters only and
collapsing blanks makes spaces only, so any other byte of the result was there before
(`mem_of_mem_toLower`, `mem_of_mem_collapseBlanks`). Numbers, dates and hexadecimal text have no line
break at all.
-/

namespace SigV4

/-- A text without line breaks has neither a carriage return nor a line feed. -/
theorem hasLineBreak_eq_false_iff {text : Bytes} :
    hasLineBreak text = false ↔ 13 ∉ text ∧ 10 ∉ text := by
  unfold hasLineBreak
  rw [List.any_eq_false]
  constructor
  · intro h
    exact ⟨fun hmem => h 13 hmem rfl, fun hmem => h 10 hmem rfl⟩
  · intro ⟨hcr, hlf⟩ b hb hbreak
    rcases Bool.or_eq_true_iff.mp hbreak with heq | heq
    · exact hcr (eq_of_beq heq ▸ hb)
    · exact hlf (eq_of_beq heq ▸ hb)

/-- A line break stands in one of two texts, as it is one byte. -/
@[simp] theorem hasLineBreak_append (a b : Bytes) :
    hasLineBreak (a ++ b) = (hasLineBreak a || hasLineBreak b) := List.any_append

/-- A byte that is in no part and not in the separator is not in the parts joined. -/
theorem Bytes.not_mem_join {b : UInt8} {separator : Bytes} (hseparator : b ∉ separator)
    {parts : List Bytes} (hparts : ∀ part ∈ parts, b ∉ part) : b ∉ join separator parts := by
  cases parts with
  | nil => exact List.not_mem_nil
  | cons part parts =>
    intro h
    rcases List.mem_append.mp h with h | h
    · exact hparts part List.mem_cons_self h
    · obtain ⟨other, hother, h⟩ := List.mem_flatMap.mp h
      rcases List.mem_append.mp h with h | h
      · exact hseparator h
      · exact hparts other (List.mem_cons_of_mem part hother) h

/-- Parts without line breaks are joined to a text without line breaks. -/
theorem hasLineBreak_join {separator : Bytes} (hseparator : hasLineBreak separator = false)
    {parts : List Bytes} (hparts : ∀ part ∈ parts, hasLineBreak part = false) :
    hasLineBreak (Bytes.join separator parts) = false := by
  simp only [hasLineBreak_eq_false_iff] at hseparator hparts ⊢
  exact ⟨Bytes.not_mem_join hseparator.1 fun part hpart => (hparts part hpart).1,
    Bytes.not_mem_join hseparator.2 fun part hpart => (hparts part hpart).2⟩

/-! ## Names and values -/

/-- Lower-casing brings in letters only, so any other byte was there before. -/
theorem mem_of_mem_toLower {b : UInt8} (hb : ¬(97 ≤ b ∧ b ≤ 122)) {text : Bytes}
    (h : b ∈ toLower text) : b ∈ text := by
  obtain ⟨x, hx, hxb⟩ := List.mem_map.mp h
  unfold lowerByte at hxb
  split at hxb
  next hupper =>
    -- An upper-case letter becomes a lower-case one, and `b` is none.
    exfalso
    apply hb
    rw [← hxb]
    simp only [UInt8.le_iff_toNat_le, UInt8.toNat_add] at hupper ⊢
    simp at hupper ⊢
    omega
  next => rwa [← hxb]

/-- The loop brings in spaces only. The induction is on the text that is left, for anything that was put out
before. -/
theorem mem_collapseBlanks_go {b : UInt8} (hb : b ≠ 32) {text out : Bytes} {gap : Bool}
    (h : b ∈ collapseBlanks.go out gap text) : b ∈ out ∨ b ∈ text := by
  induction text generalizing out gap with
  | nil =>
    rw [collapseBlanks.go] at h
    exact .inl (List.mem_reverse.mp h)
  | cons x text ih =>
    rw [collapseBlanks.go] at h
    split at h
    · rcases ih h with hout | htext
      · exact .inl hout
      · exact .inr (List.mem_cons_of_mem x htext)
    · rcases ih h with hout | htext
      · -- What was put out is the byte itself and, behind a gap, a space in front of it.
        rcases List.mem_cons.mp hout with rfl | hout
        · exact .inr List.mem_cons_self
        · split at hout
          · exact .inl ((List.mem_cons.mp hout).resolve_left hb)
          · exact .inl hout
      · exact .inr (List.mem_cons_of_mem x htext)

/-- Collapsing blanks brings in spaces only, so any other byte was there before. -/
theorem mem_of_mem_collapseBlanks {b : UInt8} (hb : b ≠ 32) {text : Bytes}
    (h : b ∈ collapseBlanks text) : b ∈ text := by
  rcases mem_collapseBlanks_go hb h with hnil | htext
  · exact absurd hnil List.not_mem_nil
  · exact htext

/-- There is nothing to collapse in a text without blanks. -/
theorem collapseBlanks_eq_self {text : Bytes} (h : ∀ b ∈ text, isBlank b = false) :
    collapseBlanks text = text := by
  -- No gap is open at any byte, so each is put out as it is.
  have hgo (out : Bytes) : collapseBlanks.go out false text = out.reverse ++ text := by
    induction text generalizing out with
    | nil => simp [collapseBlanks.go]
    | cons b text ih =>
      have hb : isBlank b = false := h b List.mem_cons_self
      rw [collapseBlanks.go, hb, if_neg Bool.false_ne_true, if_neg Bool.false_ne_true,
        ih fun other hother => h other (List.mem_cons_of_mem b hother)]
      simp
  exact hgo []

/-! ## Numbers, dates and hexadecimal text -/

/-- A number has no line break, as all of its bytes are digits and those come behind both. -/
theorem hasLineBreak_decimal (n : Nat) : hasLineBreak (Bytes.decimal n) = false := by
  have hdigit : ∀ b ∈ Bytes.decimal n, 48 ≤ b.toNat := by
    intro b hb
    obtain ⟨c, hc, rfl⟩ := List.mem_map.mp hb
    have hc' := Nat.isDigit_of_mem_toDigits (by omega) (by omega) hc
    simp only [Char.isDigit, Bool.and_eq_true, decide_eq_true_eq, UInt32.le_iff_toNat_le] at hc'
    have hnine : c.toNat ≤ 57 := hc'.2
    rw [UInt8.toNat_ofNat_of_lt' (show c.toNat < 256 by omega)]
    exact hc'.1
  rw [hasLineBreak_eq_false_iff]
  exact ⟨fun h => absurd (hdigit 13 h) (by decide), fun h => absurd (hdigit 10 h) (by decide)⟩

theorem hasLineBreak_signedDecimal (n : Int) : hasLineBreak (Bytes.signedDecimal n) = false := by
  cases n with
  | ofNat n => exact hasLineBreak_decimal n
  | negSucc n =>
    show hasLineBreak ([45] ++ Bytes.decimal (n + 1)) = false
    rw [hasLineBreak_append, hasLineBreak_decimal]
    rfl

theorem hasLineBreak_padded (width : Nat) (n : Int) :
    hasLineBreak (Timestamp.padded width n) = false := by
  have hzeros (count : Nat) : hasLineBreak (List.replicate count 48) = false := by
    rw [hasLineBreak, List.any_eq_false]
    intro b hb
    rw [List.eq_of_mem_replicate hb]
    decide
  unfold Timestamp.padded
  rw [hasLineBreak_append, hzeros, hasLineBreak_signedDecimal]
  rfl

/-- Nor has a date, which is made of such numbers and two letters. -/
theorem hasLineBreak_amzDate (t : Instant) : hasLineBreak (Timestamp.amzDate t) = false := by
  unfold Timestamp.amzDate
  simp only [hasLineBreak_append, hasLineBreak_padded]
  decide

theorem hasLineBreak_of_subset {part text : Bytes} (hpart : part ⊆ text)
    (htext : hasLineBreak text = false) : hasLineBreak part = false := by
  rw [hasLineBreak_eq_false_iff] at htext ⊢
  exact ⟨fun h => htext.1 (hpart h), fun h => htext.2 (hpart h)⟩

end SigV4
