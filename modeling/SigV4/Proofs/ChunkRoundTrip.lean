import SigV4.Chunked.Decoding
import SigV4.Proofs.ChunkDelivery
import SigV4.Proofs.Cutting
import SigV4.Proofs.Encodings

/-!
# Reading an aws-chunked stream gives back the payload

The format delimits itself: the first line of a frame has neither a `;` in its length nor a carriage
return, and the length says where the data ends, whatever bytes the data is made of.

* **`hexNumeral?_hexNumeral`**: a length is read as it was written.
* **`frame?_frame`**: the first frame of a text is read back with the text behind it.
* **`payload?_segmentsFrom`**: a whole chain of frames is read back, signature by signature, by
  induction on the chunks.
* **`reads_back_drained`**: so is what a stream delivers, read to its end in pieces of any lengths.
-/

namespace SigV4

/-! ## Hexadecimal lengths -/

/-- The library's digits are those of the encoder. There are sixteen of them to look at. -/
theorem digitChar_toNat {n : Nat} (hn : n < 16) :
    UInt8.ofNat n.digitChar.toNat = Hex.digit (UInt8.ofNat n) := by
  have hall : ∀ i : Fin 16, UInt8.ofNat (i : Nat).digitChar.toNat = Hex.digit (UInt8.ofNat i) := by
    decide
  exact hall ⟨n, hn⟩

theorem value?_digit_ofNat {n : Nat} (hn : n < 16) :
    Hex.value? (Hex.digit (UInt8.ofNat n)) = some n := by
  have htoNat : (UInt8.ofNat n).toNat = n := UInt8.toNat_ofNat_of_lt' (Nat.lt_trans hn (by decide))
  have hlt : UInt8.ofNat n < 16 := by
    rw [UInt8.lt_iff_toNat_lt, htoNat]
    exact hn
  rw [Hex.value?_digit hlt, htoNat]

/-- The digits of a length, with the last one split off. The library's printer is opened here and nowhere
else. -/
theorem hexNumeral_eq (n : Nat) :
    Bytes.hexNumeral n = if n < 16 then [Hex.digit (UInt8.ofNat n)]
      else Bytes.hexNumeral (n / 16) ++ [Hex.digit (UInt8.ofNat (n % 16))] := by
  unfold Bytes.hexNumeral
  rw [Nat.toDigits_eq_if (by omega)]
  split
  next hn =>
    rw [← digitChar_toNat hn]
    rfl
  next =>
    rw [← digitChar_toNat (Nat.mod_lt n (by omega)), Bytes.ofChars, List.map_append]
    rfl

/-- Every byte of a length is a hexadecimal digit. The induction splits the last digit off. -/
theorem isSome_value?_of_mem_hexNumeral {n : Nat} {b : UInt8} (hb : b ∈ Bytes.hexNumeral n) :
    (Hex.value? b).isSome := by
  induction n using Nat.strongRecOn with
  | ind n ih =>
    rw [hexNumeral_eq] at hb
    split at hb
    next hn =>
      rw [List.mem_singleton.mp hb, value?_digit_ofNat hn]
      rfl
    next hn =>
      rcases List.mem_append.mp hb with hb | hb
      · exact ih (n / 16) (by omega) hb
      · rw [List.mem_singleton.mp hb, value?_digit_ofNat (Nat.mod_lt n (by omega))]
        rfl

/-- A length has at least one digit, zero too. -/
theorem hexNumeral_ne_nil (n : Nat) : Bytes.hexNumeral n ≠ [] := by
  rw [hexNumeral_eq]
  split <;> simp

namespace Chunked

/-- A length is read as it was written: the digits are taken in from the front, so the induction
splits the last one off. -/
theorem hexNumeral?_hexNumeral (n : Nat) : hexNumeral? (Bytes.hexNumeral n) = some n := by
  have hne (m : Nat) : (Bytes.hexNumeral m).isEmpty = false := by
    simp [hexNumeral_ne_nil m]
  induction n using Nat.strongRecOn with
  | ind n ih =>
    rw [hexNumeral?, hne, if_neg Bool.false_ne_true, hexNumeral_eq]
    split
    next hn =>
      simp [value?_digit_ofNat hn]
    next hn =>
      -- The digits in front are those of the quotient, and the last one is the remainder.
      have hih := ih (n / 16) (by omega)
      rw [hexNumeral?, hne, if_neg Bool.false_ne_true] at hih
      rw [List.foldlM_append, hih]
      have hdigit := value?_digit_ofNat (Nat.mod_lt n (show 0 < 16 by omega))
      have hsum : 16 * (n / 16) + n % 16 = n := Nat.div_add_mod n 16
      simp [hdigit, hsum]

/-- So a length has none of the marks that stand behind it. -/
theorem not_mem_hexNumeral {b : UInt8} (hb : Hex.value? b = none) (n : Nat) :
    b ∉ Bytes.hexNumeral n := by
  intro hmem
  have hsome := isSome_value?_of_mem_hexNumeral hmem
  rw [hb] at hsome
  exact absurd hsome Bool.false_ne_true

/-! ## One frame

The reader knows a frame by its line, and the line tells how much data follows. -/

/-- The signature of a frame: hexadecimal text of the right length, and none in an unsigned
stream. -/
def SignatureForm (signed : Bool) : Option Bytes → Prop
  | some text => signed = true ∧ text.length = signatureLength ∧ ∀ b ∈ text, (Hex.value? b).isSome
  | none => signed = false

/-- The first line of a frame. -/
def frameLine (length : Nat) (signature : Option Bytes) : Bytes :=
  Bytes.hexNumeral length
    ++ (match signature with | some text => signatureMark ++ text | none => [])

/-- A frame with its first line named. Only a frame without data has no line break behind the data. -/
theorem frame_eq (data : Bytes) (signature : Option Bytes) :
    frame data signature
      = frameLine data.length signature ++ crlf ++ data ++ if data.isEmpty then [] else crlf := by
  cases signature <;> rfl

/-- The first line is as long as its digits and, in a signed stream, its signature with the mark. The bytes
of the signature do not matter to it. -/
theorem length_frameLine {signed : Bool} {signature : Option Bytes}
    (hform : SignatureForm signed signature) (length : Nat) :
    (frameLine length signature).length = (Bytes.hexNumeral length).length
      + if signed then signatureMark.length + signatureLength else 0 := by
  cases signature with
  | none =>
    have hsigned : signed = false := hform
    rw [frameLine, hsigned, List.append_nil]
    rfl
  | some text =>
    obtain ⟨hsigned, hlength, -⟩ := hform
    rw [frameLine, hsigned, if_pos rfl, List.length_append, List.length_append, hlength]

/-- The first line of a frame is read back. In a signed stream it is cut at the mark, and both parts are
checked. -/
theorem frameLine?_frameLine {signed : Bool} {signature : Option Bytes}
    (hform : SignatureForm signed signature) (length : Nat) :
    frameLine? signed (frameLine length signature) = some (length, signature) := by
  cases signature with
  | none =>
    have hsigned : signed = false := hform
    rw [frameLine?, hsigned, if_neg Bool.false_ne_true, frameLine, List.append_nil,
      hexNumeral?_hexNumeral]
    rfl
  | some text =>
    obtain ⟨hsigned, hlength, hdigits⟩ := hform
    -- The mark starts with a semicolon, which is no digit.
    have hcut : Bytes.cut? signatureMark (frameLine length (some text))
        = some (Bytes.hexNumeral length, text) := by
      rw [frameLine, ← List.append_assoc]
      exact Bytes.cut?_append (not_mem_hexNumeral (by decide) length) text
    have hall : (text.all fun b => (Hex.value? b).isSome) = true := List.all_eq_true.mpr hdigits
    rw [frameLine?, hsigned, if_pos rfl, hcut]
    simp only [Option.bind_eq_bind, Option.bind_some, hexNumeral?_hexNumeral, hlength, hall,
      decide_true, Bool.and_self, if_true]

/-- A first line has no carriage return, so it ends at the first one of the text. -/
theorem not_mem_frameLine {signed : Bool} {signature : Option Bytes}
    (hform : SignatureForm signed signature) (length : Nat) : 13 ∉ frameLine length signature := by
  have hnumeral : 13 ∉ Bytes.hexNumeral length := not_mem_hexNumeral (by decide) length
  cases signature with
  | none => simpa [frameLine] using hnumeral
  | some text =>
    obtain ⟨-, -, hdigits⟩ := hform
    have htext : 13 ∉ text := fun hmem => absurd (hdigits 13 hmem) (by decide)
    have hmark : 13 ∉ signatureMark := by decide
    simp [frameLine, hnumeral, htext, hmark]

/-- **The first frame of a text is read back**, with the text behind it. The line says how much data there
is, so whatever the data looks like, none of it is taken for a mark. -/
theorem frame?_frame {signed : Bool} {signature : Option Bytes}
    (hform : SignatureForm signed signature) (data rest : Bytes) :
    frame? signed (frame data signature ++ rest) = some (data, signature, rest) := by
  have htext : frame data signature ++ rest
      = frameLine data.length signature ++ crlf
        ++ (data ++ ((if data.isEmpty then [] else crlf) ++ rest)) := by
    rw [frame_eq]
    simp only [List.append_assoc]
  -- The line of a frame has no line break, so the first one is the one behind it.
  have hcut : Bytes.cut? crlf (frame data signature ++ rest)
      = some (frameLine data.length signature,
          data ++ ((if data.isEmpty then [] else crlf) ++ rest)) := by
    rw [htext]
    exact Bytes.cut?_append (not_mem_frameLine hform data.length) _
  unfold frame?
  simp only [hcut, frameLine?_frameLine hform]
  -- A frame without data ends with its line; any other has as much data as its line says.
  by_cases hdata : data = []
  · simp [hdata]
  · have hempty : data.isEmpty = false := by simpa using hdata
    have hlength : data.length ≠ 0 := fun h => hdata (List.length_eq_zero_iff.mp h)
    have hle : data.length ≤ (data ++ (crlf ++ rest)).length := by
      rw [List.length_append]
      omega
    have hprefix : crlf.isPrefixOf ((data ++ (crlf ++ rest)).drop data.length) = true := by
      rw [List.drop_left]
      exact List.isPrefixOf_iff_prefix.mpr (List.prefix_append crlf rest)
    have hbehind : (data ++ (crlf ++ rest)).drop (data.length + crlf.length) = rest := by
      rw [← List.drop_drop, List.drop_left, List.drop_left]
    rw [hempty, if_neg Bool.false_ne_true, if_neg hlength, if_pos (by simp only [hle, hprefix]; rfl),
      List.take_left, hbehind]

end Chunked

/-! ## A chain of frames

Each frame has to carry the signature that follows from the one before, so the reader goes along
with the signatures of the writer. -/

theorem length_sha256 (message : Bytes) : (sha256 message).length = 32 := rfl

theorem length_hmac (key message : Bytes) : (Hmac.sign key message).length = 32 :=
  length_sha256 _

/-- A signature has two hexadecimal digits for each of them. -/
theorem Signature.length_sign (key : SigningKey) (text : Bytes) :
    (sign key text).length = Chunked.signatureLength := by
  rw [sign, Hex.length_encode, length_hmac]
  rfl

namespace ChunkContext

variable {c : ChunkContext} {values : List (Bytes × Bytes)}

/-- A chunk is signed in the right form, or not at all in an unsigned stream. -/
theorem signatureForm_signChunk (c : ChunkContext) (previous data : Bytes) :
    Chunked.SignatureForm c.signed (c.signChunk previous data) := by
  unfold signChunk
  split
  next hsigned =>
    exact ⟨hsigned, Signature.length_sign _ _, fun b hb => Hex.isSome_value?_of_mem_encode hb⟩
  next hsigned => exact Bool.eq_false_iff.mpr hsigned

/-- A chunk that was signed is read back as a frame. -/
theorem frame?_chunk (c : ChunkContext) (previous data rest : Bytes) :
    Chunked.frame? c.signed (Chunked.frame data (c.signChunk previous data) ++ rest)
      = some (data, c.signChunk previous data, rest) :=
  Chunked.frame?_frame (c.signatureForm_signChunk previous data) data rest

/-- The frame that ends the payload is the last that is read. What stands behind it is left alone. -/
theorem payload?_end (c : ChunkContext) (previous rest : Bytes) :
    c.payload? previous (Chunked.frame [] (c.signChunk previous []) ++ rest)
      = some ([], (c.signChunk previous []).getD previous, rest) := by
  have hframe := c.frame?_chunk previous [] rest
  rw [payload?]
  split
  next hnone =>
    rw [hframe] at hnone
    exact absurd hnone (by simp)
  next data signature rest' hsome =>
    rw [hframe] at hsome
    obtain ⟨rfl, rfl, rfl⟩ : [] = data ∧ c.signChunk previous [] = signature ∧ rest = rest' := by
      simpa using hsome
    simp

/-- A frame with data is read, its signature is found correct, and the next one is checked against it. In an
unsigned stream the signature before is passed on. -/
theorem payload?_chunk (c : ChunkContext) {data : Bytes} (hdata : data ≠ []) (previous rest : Bytes) :
    c.payload? previous (Chunked.frame data (c.signChunk previous data) ++ rest)
      = (c.payload? ((c.signChunk previous data).getD previous) rest).map
        fun (payload, last, rest) => (data ++ payload, last, rest) := by
  have hframe := c.frame?_chunk previous data rest
  have hempty : data.isEmpty = false := by simpa using hdata
  rw [payload?]
  -- The reader finds the frame that was written, whose data is not empty, and goes on behind it.
  split
  next hnone =>
    rw [hframe] at hnone
    exact absurd hnone (by simp)
  next data' signature rest' hsome =>
    rw [hframe] at hsome
    obtain ⟨rfl, rfl, rfl⟩ : data = data' ∧ c.signChunk previous data = signature ∧ rest = rest' := by
      simpa using hsome
    rw [if_neg (by simp), hempty, if_neg Bool.false_ne_true]
    split
    next hrest =>
      rw [hrest]
      rfl
    next hrest =>
      rw [hrest]
      rfl

/-- What stands behind the frame that ends the payload, whose signature is `last`. -/
def closing (c : ChunkContext) (values : List (Bytes × Bytes)) (last : Bytes) : Bytes :=
  if c.trailers.isEmpty then crlf else (c.trailerSegment last values).text

/-- **A chain of frames is read back**, with the signature of its last frame and the text behind it. The
induction is on the chunks, each of which is signed from the one before. -/
theorem payload?_segmentsFrom (c : ChunkContext) (values : List (Bytes × Bytes)) {slices : List Bytes}
    (hslices : ∀ data ∈ slices, data ≠ []) (previous : Bytes) :
    ∃ last, c.payload? previous (segmentTexts (c.segmentsFrom values previous slices))
      = some (slices.flatten, last, c.closing values last) := by
  induction slices generalizing previous with
  | nil =>
    -- Only the frame without data is left, and behind it a line break or the trailers.
    refine ⟨(c.signChunk previous []).getD previous, ?_⟩
    have htext : segmentTexts (c.segmentsFrom values previous [])
        = Chunked.frame [] (c.signChunk previous [])
          ++ c.closing values ((c.signChunk previous []).getD previous) := by
      unfold segmentsFrom closing
      split
      next htrailers => simp [segmentTexts, chunkSegment, htrailers]
      next htrailers => simp [segmentTexts, chunkSegment, htrailers]
    rw [htext, payload?_end]
    rfl
  | cons data slices ih =>
    have hdata : data ≠ [] := hslices data List.mem_cons_self
    obtain ⟨last, hlast⟩ := ih (fun other hother => hslices other (List.mem_cons_of_mem data hother))
      ((c.signChunk previous data).getD previous)
    refine ⟨last, ?_⟩
    have htext : segmentTexts (c.segmentsFrom values previous (data :: slices))
        = Chunked.frame data (c.signChunk previous data)
          ++ segmentTexts (c.segmentsFrom values ((c.signChunk previous data).getD previous) slices) := by
      simp [segmentsFrom, chunkSegment, hdata]
    rw [htext, payload?_chunk c hdata, hlast]
    rfl

end ChunkContext

namespace Chunked

/-- No slice is without data, so no chunk of the payload is taken for its end. -/
theorem mem_slices_ne_nil {size : Nat} {payload data : Bytes} (h : data ∈ slices size payload) :
    data ≠ [] := by
  induction payload using slices.induct size with
  | case1 payload hend =>
    rw [slices, if_pos hend] at h
    exact absurd h List.not_mem_nil
  | case2 payload hmore ih =>
    rw [slices, if_neg hmore] at h
    rw [not_or] at hmore
    rcases List.mem_cons.mp h with rfl | h
    · exact take_ne_nil hmore.1 hmore.2
    · exact ih h

/-- Slicing loses nothing: the slices of a payload are the payload again. The induction is that of the
slicing. -/
theorem flatten_slices {size : Nat} (hsize : size ≠ 0) (payload : Bytes) :
    (slices size payload).flatten = payload := by
  induction payload using slices.induct size with
  | case1 payload hend =>
    have hpayload : payload = [] := hend.resolve_left hsize
    rw [slices, if_pos hend, hpayload]
    rfl
  | case2 payload hmore ih =>
    rw [slices, if_neg hmore, List.flatten_cons, ih, List.take_append_drop]

end Chunked

namespace ChunkContext

/-- The strict reader finds the payload in its encoding, and stops in front of the trailers. -/
theorem payload?_encode {c : ChunkContext} (hsize : c.chunkSize ≠ 0) (values : List (Bytes × Bytes))
    (payload : Bytes) :
    ∃ last, c.payload? c.seed (c.encode values payload)
      = some (payload, last, c.closing values last) := by
  have hsize' : c.chunkSize.toNat ≠ 0 := fun h => hsize (UInt64.toNat_inj.mp h)
  obtain ⟨last, hlast⟩ := c.payload?_segmentsFrom values
    (fun data hdata => Chunked.mem_slices_ne_nil hdata) c.seed
  rw [Chunked.flatten_slices hsize' payload] at hlast
  exact ⟨last, hlast⟩

/-- Payloads with the same encoding are the same, whatever their trailers are: the reader finds each of them
in it. -/
theorem payload_eq_of_encode_eq {c : ChunkContext} (hsize : c.chunkSize ≠ 0)
    {values values' : List (Bytes × Bytes)} {payload payload' : Bytes}
    (h : c.encode values payload = c.encode values' payload') : payload = payload' := by
  obtain ⟨last, hlast⟩ := payload?_encode hsize values payload
  obtain ⟨last', hlast'⟩ := payload?_encode hsize values' payload'
  rw [h, hlast'] at hlast
  exact (Prod.mk.inj (Option.some.inj hlast)).1.symm

end ChunkContext

/-! ## What a stream delivers, read to its end -/

/-- Read in pieces of some lengths until a reading returns nothing, `source` returns `text`. -/
def Pull.Drains {ρ : Type} (pull : Pull ρ) (source : ρ) (shared : Shared) (text : Bytes) : Prop :=
  ∃ (lengths : List Nat) (pieces : List Bytes) (source' : ρ) (shared' : Shared) (n : Nat),
    Pull.reads pull lengths source shared = (pieces.map .ok, source', shared')
    ∧ 0 < n ∧ (pull n source' shared').1 = .ok [] ∧ pieces.flatten = text

/-- Some stream on `payload` delivers `text`. -/
def ChunkContext.Encodes (c : ChunkContext) (values : List (Bytes × Bytes)) (payload text : Bytes) :
    Prop :=
  ∃ (ρ : Type) (pull : Pull ρ) (source : ρ) (stream : ChunkStream ρ) (shared : Shared),
    Supplies pull source payload ∧ Resolved shared c.trailers values
    ∧ ChunkStream.start (some source) c = .ok stream
    ∧ Pull.Drains (ChunkStream.pull pull) stream shared text

namespace ChunkStream

variable {ρ : Type} {pull : Pull ρ} {c : ChunkContext} {values : List (Bytes × Bytes)}
  {shared : Shared}

/-- Read to its end, a stream delivers the whole text of its segments and nothing else, in whatever pieces
it is read. -/
theorem Reached.drains_iff {stream : ChunkStream ρ} {segments : List Segment}
    (hsize : c.chunkSize ≠ 0) (hstream : stream.Reached pull c values segments 0)
    (hvalues : Resolved shared c.trailers values) {text : Bytes} :
    Pull.Drains (ChunkStream.pull pull) stream shared text ↔ segmentTexts segments = text := by
  constructor
  · rintro ⟨lengths, pieces, s', shared', n, hreads, hn, hend, htext⟩
    obtain ⟨s, shared₁, hreads₁, hs, hsettled⟩ := hstream.reads_eq hsize hvalues lengths
    rw [hreads₁] at hreads
    obtain ⟨hpieces, rfl, rfl⟩ : _ ∧ s = s' ∧ shared₁ = shared' := by simpa using hreads
    obtain ⟨s₂, shared₂, hpull, -, -⟩ := hs.pull_eq hsize (hvalues.mono hsettled) n
    rw [hpull, Nat.zero_add] at hend
    have hpieces' : Bytes.pieces lengths (segmentTexts segments) = pieces :=
      List.map_injective_iff.mpr (fun _ _ => Except.ok.inj) hpieces
    rw [← htext, ← hpieces']
    -- The last reading returned nothing, so the readings before it went up to the end.
    exact (Bytes.flatten_pieces_of_end hn (Except.ok.inj hend)).symm
  · rintro rfl
    -- One reading of everything is followed by one that returns nothing.
    obtain ⟨s, shared₁, hreads, hs, hsettled⟩ :=
      hstream.reads_eq hsize hvalues [(segmentTexts segments).length]
    obtain ⟨s₂, shared₂, hpull, -, -⟩ := hs.pull_eq hsize (hvalues.mono hsettled) 1
    refine ⟨_, _, s, shared₁, 1, hreads, Nat.one_pos, ?_, ?_⟩
    · rw [hpull]
      simp
    · rw [Bytes.flatten_pieces]
      simp

/-- **Reading back what a stream delivered.** A stream can be read to its end, and a strict reader of the
text that it delivered finds every chunk signed from the one before, gives back the payload and stops in
front of the trailers. No other payload has an encoding with this text, whatever source it came from. -/
theorem reads_back_drained {source : ρ} {payload : Bytes} (hsource : Supplies pull source payload)
    (hsize : c.chunkSize ≠ 0) (hvalues : Resolved shared c.trailers values) :
    ∃ stream, start (some source) c = .ok stream
      ∧ (∃ text, Pull.Drains (ChunkStream.pull pull) stream shared text)
      ∧ ∀ text, Pull.Drains (ChunkStream.pull pull) stream shared text →
        (∃ last, c.payload? c.seed text = some (payload, last, c.closing values last))
        ∧ ∀ values' payload', c.Encodes values' payload' text → payload' = payload := by
  obtain ⟨stream, hstart, hstream⟩ := start_reached values hsource hsize
  refine ⟨stream, hstart, ⟨_, (hstream.drains_iff hsize hvalues).mpr rfl⟩, fun text htext => ⟨?_, ?_⟩⟩
  · rw [← (hstream.drains_iff hsize hvalues).mp htext]
    exact ChunkContext.payload?_encode hsize values payload
  · -- Another stream with this text has the text of its own segments, so the two encodings are the same.
    rintro values' payload' ⟨ρ', pull', source', stream', shared', hsource', hvalues', hstart', htext'⟩
    obtain ⟨stream₁, hstart₁, hstream₁⟩ := start_reached values' hsource' hsize
    rw [hstart'] at hstart₁
    rw [← Except.ok.inj hstart₁] at hstream₁
    have hencode : c.encode values' payload' = c.encode values payload :=
      ((hstream₁.drains_iff hsize hvalues').mp htext').trans
        ((hstream.drains_iff hsize hvalues).mp htext).symm
    exact ChunkContext.payload_eq_of_encode_eq hsize hencode

/-- The second chunk of this payload looks like the end of the stream, and is read as data. -/
theorem reads_back_drained_of_false_end :
    Resolved { trailers := [.settled (.ok (ascii "abc"))] } sampleContext.trailers
      [(ascii "x-check", ascii "abc")]
    ∧ ∃ stream, start (some (MemorySource.mk (ascii "3\r\n0\r\n"))) sampleContext = .ok stream
      ∧ (∃ text, Pull.Drains (ChunkStream.pull ByteSource.pull) stream
        { trailers := [.settled (.ok (ascii "abc"))] } text)
      ∧ ∀ text, Pull.Drains (ChunkStream.pull ByteSource.pull) stream
          { trailers := [.settled (.ok (ascii "abc"))] } text →
        (∃ last, sampleContext.payload? sampleContext.seed text
          = some (ascii "3\r\n0\r\n", last,
            sampleContext.closing [(ascii "x-check", ascii "abc")] last))
        ∧ ∀ values' payload', sampleContext.Encodes values' payload' text →
          payload' = ascii "3\r\n0\r\n" := by
  have hvalues : Resolved { trailers := [.settled (.ok (ascii "abc"))] } sampleContext.trailers
      [(ascii "x-check", ascii "abc")] := .cons ⟨rfl, rfl, by decide⟩ .nil
  exact ⟨hvalues, reads_back_drained (supplies_memory _) (by decide) hvalues⟩

end ChunkStream

end SigV4
