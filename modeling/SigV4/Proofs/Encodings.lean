import SigV4.Base64
import SigV4.Percent
import SigV4.Text

/-!
# Hexadecimal and percent encoding lose nothing

Facts about single bytes, lifted to texts by induction on the text:

* **`Hex.value?_digit`**, **`Hex.upperValue?_upperDigit`**: a digit stands for the number that it was
  written for.
* **`Percent.decode_encode`**, **`Percent.decode_encodePath`**: percent decoding gives back what was
  encoded, so both encodings are injective.
* **`Percent.not_mem_encode`**: no separator of a target occurs in an encoded text.
* **`Base64.plain_of_mem_encode`**: nor does a blank or a line break in Base64.
-/

namespace SigV4

namespace Hex

/-- A property of the sixteen numbers that have a digit, checked on each. -/
theorem forall_digit {P : UInt8 → Prop} (h : ∀ i : Fin 16, P (UInt8.ofNat i)) {n : UInt8}
    (hn : n < 16) : P n := by
  have hlt : n.toNat < 16 := UInt8.lt_iff_toNat_lt.mp hn
  simpa using h ⟨n.toNat, hlt⟩

/-- A digit is read as the number that it was written for. -/
theorem value?_digit {n : UInt8} (hn : n < 16) : value? (digit n) = some n.toNat :=
  forall_digit (P := fun n => value? (digit n) = some n.toNat) (by decide) hn

/-- So is a digit in upper case, as percent-encoding has it. -/
theorem upperValue?_upperDigit {n : UInt8} (hn : n < 16) :
    upperValue? (upperDigit n) = some n.toNat :=
  forall_digit (P := fun n => upperValue? (upperDigit n) = some n.toNat) (by decide) hn

theorem high_lt (b : UInt8) : b / 16 < 16 := by
  have hb := b.toNat_lt
  rw [UInt8.lt_iff_toNat_lt, UInt8.toNat_div, show UInt8.toNat 16 = 16 from rfl]
  omega

theorem low_lt (b : UInt8) : b % 16 < 16 := by
  rw [UInt8.lt_iff_toNat_lt, UInt8.toNat_mod]
  exact Nat.mod_lt _ (by decide)

/-- A byte is made of its two digits. -/
theorem high_low (b : UInt8) : (16 * (b / 16).toNat + (b % 16).toNat).toUInt8 = b := by
  rw [UInt8.toNat_div, UInt8.toNat_mod, show UInt8.toNat 16 = 16 from rfl, Nat.div_add_mod]
  exact UInt8.ofNat_toNat

theorem length_encode (bytes : Bytes) : (encode bytes).length = 2 * bytes.length := by
  induction bytes with
  | nil => rfl
  | cons b bytes ih =>
    rw [encode, List.flatMap_cons, List.length_append, ← encode, ih]
    simp only [List.length_cons, List.length_nil]
    omega

/-- Digits can be told apart, as each is read as its number. -/
theorem digit_injective {a b : UInt8} (ha : a < 16) (hb : b < 16) (h : digit a = digit b) : a = b := by
  have hvalue := value?_digit ha
  rw [h, value?_digit hb] at hvalue
  exact UInt8.toNat_inj.mp (Option.some.inj hvalue.symm)

/-- Bytes can be told by their digits. The induction takes one byte off each text, and both of its digits
have to be the same. -/
theorem encode_injective {a b : Bytes} (h : encode a = encode b) : a = b := by
  induction a generalizing b with
  | nil =>
    have hlength := congrArg List.length h
    rw [length_encode, length_encode, List.length_nil] at hlength
    exact (List.length_eq_zero_iff.mp (by omega)).symm
  | cons x a ih =>
    cases b with
    | nil => exact absurd h (by simp [encode])
    | cons y b =>
      rw [encode, encode, List.flatMap_cons, List.flatMap_cons, ← encode, ← encode] at h
      obtain ⟨hhigh, hlow, hrest⟩ : digit (x / 16) = digit (y / 16) ∧ digit (x % 16) = digit (y % 16)
          ∧ encode a = encode b := by
        simpa using h
      have hbyte : x = y := by
        rw [← high_low x, ← high_low y, digit_injective (high_lt x) (high_lt y) hhigh,
          digit_injective (low_lt x) (low_lt y) hlow]
      rw [hbyte, ih hrest]

/-- Only digits are written. -/
theorem isSome_value?_of_mem_encode {bytes : Bytes} {b : UInt8} (hb : b ∈ encode bytes) :
    (value? b).isSome := by
  obtain ⟨byte, _, hmem⟩ := List.mem_flatMap.mp hb
  simp only [List.mem_cons, List.not_mem_nil, or_false] at hmem
  rcases hmem with rfl | rfl
  · rw [value?_digit (high_lt byte)]
    rfl
  · rw [value?_digit (low_lt byte)]
    rfl

end Hex

namespace Percent

/-! ## Decoding -/

theorem decode_cons_of_ne {b : UInt8} (hb : b ≠ 37) (rest : Bytes) :
    decode (b :: rest) = (decode rest).map (b :: ·) := by
  rw [decode.eq_def]
  simp only [if_neg hb]

/-- One encoded byte is read back as that byte, whatever follows. -/
theorem decode_encodeByte_append (b : UInt8) (rest : Bytes) :
    decode (encodeByte b ++ rest) = (decode rest).map (b :: ·) := by
  unfold encodeByte
  split
  next hb =>
    -- An unreserved byte stands for itself, and the percent sign is not one of them.
    have hne : b ≠ 37 := by
      rintro rfl
      exact absurd hb (by decide)
    exact decode_cons_of_ne hne rest
  next =>
    simp only [List.cons_append, List.nil_append, decode, if_true, Option.bind_eq_bind,
      Option.bind_some, Hex.upperValue?_upperDigit (Hex.high_lt b),
      Hex.upperValue?_upperDigit (Hex.low_lt b), Hex.high_low]
    exact (Option.map_eq_bind (f := (b :: ·))).symm

/-- What was encoded is decoded again, byte by byte. -/
theorem decode_encode (text : Bytes) : decode (encode text) = some text := by
  induction text with
  | nil => rfl
  | cons b text ih =>
    rw [encode, List.flatMap_cons, ← encode, decode_encodeByte_append, ih]
    rfl

/-- So is a path, of which the slashes were left alone. -/
theorem decode_encodePath (path : Bytes) : decode (encodePath path) = some path := by
  induction path with
  | nil => rfl
  | cons b path ih =>
    rw [encodePath, List.flatMap_cons, ← encodePath]
    split
    next hb =>
      have hslash : b = 47 := by simpa using hb
      rw [List.singleton_append, decode_cons_of_ne (by decide), ih, hslash]
      rfl
    next =>
      rw [decode_encodeByte_append, ih]
      rfl

/-- So texts can be told by their encodings. -/
theorem encode_injective {a b : Bytes} (h : encode a = encode b) : a = b := by
  have hdecode := decode_encode a
  rw [h, decode_encode b] at hdecode
  exact (Option.some.inj hdecode).symm

/-- And so can paths. -/
theorem encodePath_injective {a b : Bytes} (h : encodePath a = encodePath b) : a = b := by
  have hdecode := decode_encodePath a
  rw [h, decode_encodePath b] at hdecode
  exact (Option.some.inj hdecode).symm

/-! ## The bytes of an encoding

Which bytes an encoding can have decides what may be used as a separator. -/

/-- The digits behind a percent sign are unreserved characters. -/
theorem isUnreserved_upperDigit {n : UInt8} (hn : n < 16) :
    isUnreserved (Hex.upperDigit n) = true :=
  Hex.forall_digit (P := fun n => isUnreserved (Hex.upperDigit n) = true) (by decide) hn

/-- Unreserved characters and percent signs are all that is written. -/
theorem of_mem_encodeByte {b x : UInt8} (hx : x ∈ encodeByte b) : isUnreserved x = true ∨ x = 37 := by
  unfold encodeByte at hx
  split at hx
  next hb =>
    rw [List.mem_singleton.mp hx]
    exact .inl hb
  next =>
    simp only [List.mem_cons, List.not_mem_nil, or_false] at hx
    rcases hx with rfl | rfl | rfl
    · exact .inr rfl
    · exact .inl (isUnreserved_upperDigit (Hex.high_lt b))
    · exact .inl (isUnreserved_upperDigit (Hex.low_lt b))

/-- An encoded text has unreserved characters and percent signs only. -/
theorem of_mem_encode {text : Bytes} {x : UInt8} (hx : x ∈ encode text) :
    isUnreserved x = true ∨ x = 37 := by
  obtain ⟨b, _, hxb⟩ := List.mem_flatMap.mp hx
  exact of_mem_encodeByte hxb

/-- An encoded path has slashes besides. -/
theorem of_mem_encodePath {path : Bytes} {x : UInt8} (hx : x ∈ encodePath path) :
    isUnreserved x = true ∨ x = 37 ∨ x = 47 := by
  obtain ⟨b, _, hxb⟩ := List.mem_flatMap.mp hx
  split at hxb
  · exact .inr (.inr (List.mem_singleton.mp hxb))
  · rcases of_mem_encodeByte hxb with h | h
    · exact .inl h
    · exact .inr (.inl h)

/-- Reserved characters do not occur in an encoded text, so they can separate such texts. -/
theorem not_mem_encode {x : UInt8} (hx : isUnreserved x = false) (hpercent : x ≠ 37)
    (text : Bytes) : x ∉ encode text := by
  intro hmem
  rcases of_mem_encode hmem with h | h
  · simp [h] at hx
  · exact hpercent h

/-- Reserved characters other than the slash do not occur in an encoded path. -/
theorem not_mem_encodePath {x : UInt8} (hx : isUnreserved x = false) (hpercent : x ≠ 37)
    (hslash : x ≠ 47) (path : Bytes) : x ∉ encodePath path := by
  intro hmem
  rcases of_mem_encodePath hmem with h | h | h
  · simp [h] at hx
  · exact hpercent h
  · exact hslash h

/-! ## Encoding part by part -/

@[simp] theorem encodePath_append (a b : Bytes) :
    encodePath (a ++ b) = encodePath a ++ encodePath b :=
  List.flatMap_append

theorem encodePath_eq_nil_iff {path : Bytes} : encodePath path = [] ↔ path = [] :=
  ⟨fun h => encodePath_injective h, fun h => by rw [h]; rfl⟩

/-- A text without slashes is encoded as a path like any text. -/
theorem encodePath_eq_encode {text : Bytes} (h : 47 ∉ text) : encodePath text = encode text := by
  induction text with
  | nil => rfl
  | cons b text ih =>
    obtain ⟨hb, htext⟩ := List.ne_and_not_mem_of_not_mem_cons h
    have hne : (b == 47) = false := beq_eq_false_iff_ne.mpr (Ne.symm hb)
    rw [encodePath, encode, List.flatMap_cons, List.flatMap_cons, ← encodePath, ← encode, ih htext,
      hne, if_neg Bool.false_ne_true]

end Percent

namespace Base64

/-- No letter of the alphabet is a blank or a line break. All arguments are tried. -/
theorem letter_plain (n : UInt8) :
    isBlank (letter n) = false ∧ letter n ≠ 13 ∧ letter n ≠ 10 := by
  have hall : ∀ i : Fin 256, isBlank (letter (UInt8.ofNat i)) = false
      ∧ letter (UInt8.ofNat i) ≠ 13 ∧ letter (UInt8.ofNat i) ≠ 10 := by decide +kernel
  simpa using hall ⟨n.toNat, n.toNat_lt⟩

/-- There are neither blanks nor line breaks among the letters. The cases are those of the encoder: three
bytes at a time, and one or two at the end with padding. -/
theorem plain_of_mem_encode {bytes : Bytes} {b : UInt8} (hb : b ∈ encode bytes) :
    isBlank b = false ∧ b ≠ 13 ∧ b ≠ 10 := by
  have hfill : isBlank 61 = false ∧ (61 : UInt8) ≠ 13 ∧ (61 : UInt8) ≠ 10 := by decide
  -- Three bytes make four letters; at the end there may be fill instead of the last ones.
  fun_induction encode bytes with
  | case1 => exact absurd hb List.not_mem_nil
  | case2 a =>
    simp only [List.mem_cons, List.not_mem_nil, or_false] at hb
    rcases hb with rfl | rfl | rfl | rfl
    · exact letter_plain _
    · exact letter_plain _
    · exact hfill
    · exact hfill
  | case3 a b =>
    simp only [List.mem_cons, List.not_mem_nil, or_false] at hb
    rcases hb with rfl | rfl | rfl | rfl
    · exact letter_plain _
    · exact letter_plain _
    · exact letter_plain _
    · exact hfill
  | case4 a b c rest ih =>
    simp only [List.mem_cons] at hb
    rcases hb with rfl | rfl | rfl | rfl | hb
    · exact letter_plain _
    · exact letter_plain _
    · exact letter_plain _
    · exact letter_plain _
    · exact ih hb

end Base64

end SigV4
