import SigV4.Proofs.ChunkedResigning
import SigV4.Proofs.Cutting
import Mathlib.Data.List.DropRight
import Mathlib.Data.List.Perm.Subperm

/-!
# The content codings of an encoded request

An aws-chunked body is announced as one more content coding. The codings that a payload has already are
listed in any number of headers, of which only the first is looked at and all are replaced:

* **`codings_cons`**: the codings of several headers are those of the first and those of the others.
* **`sign_codings`**: what becomes of the headers of a request whose body is encoded.
* **`sign_keepsCodings_iff`**: so codings are lost exactly if a later header lists any, and the new coding is
  missing exactly if the first header has its name only as a part of others.
-/

namespace SigV4

/-! ## Lists of codings

A header may be there more than once, and its values are one list. Replacing all of them by one that
starts with the first loses the others. -/

/-- The text without the blanks around it. -/
def trim (text : Bytes) : Bytes := (text.dropWhile isBlank).rdropWhile isBlank

/-- What is left of a text without the blanks around it stands in the text. -/
theorem infix_trim (text : Bytes) : trim text <:+: text :=
  (List.rdropWhile_prefix isBlank _).isInfix.trans (List.dropWhile_suffix isBlank).isInfix

namespace Signer

/-- The codings that a value lists. -/
def listedCodings (value : Bytes) : List Bytes := ((Bytes.split 44 value).map trim).filter (!·.isEmpty)

/-- The codings of a message with these values, which count as one list with commas between them. -/
def codings (values : List Bytes) : List Bytes := listedCodings (Bytes.join (ascii ",") values)

/-- A comma separates lists of codings: what is listed on both sides is listed altogether. -/
theorem listedCodings_append (front rest : Bytes) :
    listedCodings (front ++ ascii "," ++ rest) = listedCodings front ++ listedCodings rest := by
  have hcomma : front ++ ascii "," ++ rest = front ++ 44 :: rest := by
    rw [List.append_assoc]
    rfl
  rw [hcomma, listedCodings, Bytes.split_append_cons, List.map_append, List.filter_append]
  rfl

/-- The codings of several headers are those of the first and those of the others. -/
theorem codings_cons (first : Bytes) (rest : List Bytes) :
    codings (first :: rest) = listedCodings first ++ codings rest := by
  cases rest with
  | nil =>
    have hnone : codings [] = [] := by decide
    rw [hnone, List.append_nil, codings, Bytes.join_singleton]
  | cons next rest => rw [codings, Bytes.join_cons_cons, listedCodings_append, codings]

/-- A coding that is listed is mentioned. The converse fails: a name can be a part of another name. -/
theorem infix_of_mem_listedCodings {value coding : Bytes} (h : coding ∈ listedCodings value) :
    coding <:+: value := by
  obtain ⟨part, hpart, rfl⟩ := List.mem_map.mp (List.mem_of_mem_filter h)
  exact (infix_trim part).trans (Bytes.infix_of_mem_split hpart)

/-- The new coding alone is a list of one. -/
theorem listedCodings_codingName : listedCodings codingName = [codingName] := by decide

/-- The coding is put in front of those of the first value, and the values behind the first are gone. -/
theorem codings_announcedCoding (values : List Bytes) :
    codings [announcedCoding values.head?]
      = codingName :: (values.head?.map listedCodings).getD [] := by
  rw [codings, Bytes.join_singleton]
  cases values with
  | nil => exact listedCodings_codingName
  | cons first rest =>
    cases first with
    | nil => exact listedCodings_codingName
    | cons b first =>
      show listedCodings (codingName ++ ascii "," ++ b :: first) = _
      rw [listedCodings_append, listedCodings_codingName]
      rfl

/-- What is to become of the codings of a payload that is encoded: the new one is put in front, and if it
was listed before, all are listed still. -/
def KeepsCodings (before after : List Bytes) : Prop :=
  if codingName ∈ before then before.Subperm after else after = codingName :: before

/-- To put the coding in front of some of the codings is enough where the others are none, or it alone: in
the first case all are kept, in the second the new one takes the place of the one that is lost. -/
theorem keepsCodings_cons_iff {front rest : List Bytes} (hfront : codingName ∉ front) :
    KeepsCodings (front ++ rest) (codingName :: front) ↔ rest = [] ∨ rest = [codingName] := by
  unfold KeepsCodings
  by_cases hmem : codingName ∈ rest
  · have hrest : rest ≠ [] := List.ne_nil_of_mem hmem
    have hswap : (front ++ [codingName]).Perm (codingName :: front) := List.perm_append_singleton _ _
    rw [if_pos (List.mem_append_right _ hmem), ← hswap.subperm_left, List.subperm_append_left,
      or_iff_right hrest]
    constructor
    · intro h
      -- As many as one coding are kept of the others, so they are this one.
      obtain ⟨others, hothers, hsub⟩ := h
      rcases List.sublist_singleton.mp hsub with rfl | rfl
      · exact absurd (List.nil_perm.mp hothers) hrest
      · exact (List.singleton_perm.mp hothers).symm
    · rintro rfl
      exact List.Subperm.refl _
  · have hne : rest ≠ [codingName] := by
      rintro rfl
      exact hmem List.mem_cons_self
    rw [if_neg (List.not_mem_append hfront hmem), or_iff_left hne, List.cons.injEq]
    exact ⟨fun h => List.self_eq_append_right.mp h.2, by rintro rfl; simp⟩

/-! ## Announcing -/

variable {σ : Type} {clock : Clock} {config : Config} {identity : Identity} {request : Request σ}
  {shared after : Shared} {first : Bytes} {rest : List Bytes}

/-- Where the first value mentions the coding, nothing is announced. -/
theorem addCoding_of_mentioned (h : request.headers.values contentEncoding = first :: rest)
    (hfirst : codingName <:+: first) : addCoding request = request := by
  have hget : request.headers.get? contentEncoding = some first := by
    rw [Fields.get?_eq_head?, h]
    rfl
  rw [addCoding, hget]
  cases first with
  | nil => exact absurd hfirst (by decide)
  | cons b first => exact if_pos (Bytes.isSome_cut?_iff.mpr hfirst)

/-- Where the first value does not mention the coding, one value is left, which has the coding in front of
those of the first. -/
theorem addCoding_values
    (h : ∀ first ∈ (request.headers.values contentEncoding).head?, ¬ codingName <:+: first) :
    (addCoding request).headers.values contentEncoding
      = [announcedCoding (request.headers.values contentEncoding).head?] := by
  rw [addCoding_of_head, ← Fields.get?_eq_head?]
  · exact Fields.values_set_self _ _ _
  · intro value hvalue
    rw [Fields.get?_eq_head?] at hvalue
    have hcut : ¬ (Bytes.cut? codingName value).isSome = true := fun hsome =>
      h value hvalue (Bytes.isSome_cut?_iff.mp hsome)
    simpa using hcut

/-- Of a request whose body is encoded the content codings are announced, and not touched any more:
finishing edits other headers. -/
theorem sign_codings [ByteSource σ] {signed : SignedRequest σ}
    (h : sign clock config identity request shared = (.ok signed, after))
    (hfresh : request.body.payload? = none) (hencoded : signed.request.body.payload?.isSome = true) :
    signed.request.headers.values contentEncoding = (addCoding request).headers.values contentEncoding := by
  obtain ⟨attempt, hash, hashed, finished, hprepared, -, hfinish, hsigned⟩ := sign_ok h
  have hedited := Attempt.finish_edited hfinish
  have hrequest := hprepared.request
  rw [unwrapBody_of_payload_eq_none hfresh] at hrequest
  split at hsigned
  next hstreaming =>
    obtain ⟨rfl, -⟩ := Prod.mk.inj hsigned
    rw [if_pos hstreaming] at hrequest
    have hfinished := hedited.headers.mono (editedHeaders_subset config attempt.hash.streaming)
    have hannounced := (addChunkHeaders_ok (announceChunks_ok hrequest).2).headers
    exact (hfinished.values_eq (by decide)).trans (hannounced.values_eq (by decide))
  next hplain =>
    -- Without an encoding the body is that of the request, which is not encoded.
    obtain ⟨rfl, -⟩ := Prod.mk.inj hsigned
    have hbody : signed.request.body = request.body := by
      rw [hedited.body, hprepared.body_eq, unwrapBody_of_payload_eq_none hfresh]
    rw [hbody, hfresh] at hencoded
    exact absurd hencoded Bool.false_ne_true

/-- The codings of these values are kept when a body is announced: the first value mentions the new coding,
and it is indeed one of the codings, or it does not and those behind it list nothing else. -/
def Keepable : List Bytes → Prop
  | [] => True
  | first :: rest =>
    codingName <:+: first ∧ codingName ∈ codings (first :: rest)
      ∨ ¬ codingName <:+: first ∧ (codings rest = [] ∨ codings rest = [codingName])

/-- Announcing keeps the codings exactly if they can be kept. There are three cases: no value at all, a
first value that mentions the coding, and one that does not. -/
theorem keepsCodings_addCoding_iff (request : Request σ) :
    KeepsCodings (codings (request.headers.values contentEncoding))
        (codings ((addCoding request).headers.values contentEncoding))
      ↔ Keepable (request.headers.values contentEncoding) := by
  cases hvalues : request.headers.values contentEncoding with
  | nil =>
    rw [addCoding_values (by simp [hvalues]), hvalues, KeepsCodings, if_neg (by decide)]
    exact iff_of_true (by decide) trivial
  | cons first rest =>
    rw [Keepable]
    -- A first value that mentions the coding leaves all values as they are, so it matters whether the
    -- coding is really listed.
    by_cases hfirst : codingName <:+: first
    · rw [addCoding_of_mentioned hvalues hfirst, hvalues, or_iff_left fun h => h.1 hfirst,
        and_iff_right hfirst]
      unfold KeepsCodings
      split
      next hmem => exact iff_of_true (List.Subperm.refl _) hmem
      next hmem => exact iff_of_false (List.cons_ne_self _ _).symm hmem
    · have hlisted : codingName ∉ listedCodings first := fun hmem =>
        hfirst (infix_of_mem_listedCodings hmem)
      rw [addCoding_values (by simpa [hvalues] using hfirst), hvalues, codings_announcedCoding, codings_cons,
        or_iff_right fun h => hfirst h.1, and_iff_right hfirst]
      exact keepsCodings_cons_iff hlisted

/-- **Which content codings are kept.** Of a request whose body is encoded now and was not before, all
content codings are kept exactly if no `Content-Encoding` header behind the first one lists any, other than
the new coding, and the first does not mention the new one within the name of another. -/
theorem sign_keepsCodings_iff [ByteSource σ] {signed : SignedRequest σ}
    (h : sign clock config identity request shared = (.ok signed, after))
    (hfresh : request.body.payload? = none) (hencoded : signed.request.body.payload?.isSome = true) :
    KeepsCodings (codings (request.headers.values contentEncoding))
        (codings (signed.request.headers.values contentEncoding))
      ↔ Keepable (request.headers.values contentEncoding) := by
  rw [sign_codings h hfresh hencoded]
  exact keepsCodings_addCoding_iff request

/-- A one-shot stream whose codings are listed in these headers. -/
def codedRequest (values : List Bytes) : Request MemorySource where
  method := .put
  path := ascii "/bucket/key"
  headers := Fields.ofList .caseInsensitive
    ((ascii "Host", ascii "example.com") :: values.map fun value => (ascii "content-encoding", value))
  body := .stream 0 (some 3) false fun _ => some ⟨ascii "abc"⟩

def chunkingConfig : Config where
  region := ascii "us-east-1"
  service := ascii "s3"
  chunksAllowed := true

/-- Two codings in the first value and the new one in the second. -/
theorem sign_keepsCodings_iff_of_listed_coding :
    let request := codedRequest [ascii "gzip, br", ascii " ,aws-chunked"]
    request.body.payload? = none
      ∧ ∃ signed after, sign ⟨⟨0⟩, none⟩ chunkingConfig (.credentials tokenCredentials) request
          { openings := [0] } = (.ok signed, after)
        ∧ signed.request.body.payload?.isSome = true
        ∧ (KeepsCodings (codings (request.headers.values contentEncoding))
            (codings (signed.request.headers.values contentEncoding))
          ↔ Keepable (request.headers.values contentEncoding)) := by
  intro request
  have hencoded : (sign ⟨⟨0⟩, none⟩ chunkingConfig (.credentials tokenCredentials) request
      { openings := [0] }).1.toOption.any (·.request.body.payload?.isSome) = true := by decide +kernel
  obtain ⟨signed, after, hsign, hsome⟩ := exists_signed_of_any hencoded
  exact ⟨rfl, signed, after, hsign, hsome, sign_keepsCodings_iff hsign rfl hsome⟩

/-- A payload that was compressed twice, and says so in two headers, is sent as if it were compressed once. -/
theorem sign_loses_coding :
    (codedRequest [ascii "gzip", ascii "br"]).body.payload? = none
      ∧ ∃ signed after, sign ⟨⟨0⟩, none⟩ chunkingConfig (.credentials tokenCredentials)
          (codedRequest [ascii "gzip", ascii "br"]) { openings := [0] } = (.ok signed, after)
        ∧ signed.request.body.payload?.isSome = true
        ∧ ¬ KeepsCodings (codings ((codedRequest [ascii "gzip", ascii "br"]).headers.values contentEncoding))
          (codings (signed.request.headers.values contentEncoding)) := by
  have hlost : (sign ⟨⟨0⟩, none⟩ chunkingConfig (.credentials tokenCredentials)
      (codedRequest [ascii "gzip", ascii "br"]) { openings := [0] }).1.toOption.any (fun signed =>
        signed.request.body.payload?.isSome
          && signed.request.headers.values contentEncoding == [ascii "aws-chunked,gzip"]) = true := by
    decide +kernel
  obtain ⟨signed, after, hsign, hsigned⟩ := exists_signed_of_any hlost
  rw [Bool.and_eq_true, beq_iff_eq] at hsigned
  refine ⟨rfl, signed, after, hsign, hsigned.1, ?_⟩
  rw [hsigned.2, KeepsCodings, if_neg (by decide)]
  decide

end Signer

end SigV4
