import SigV4.Proofs.Encodings
import SigV4.Proofs.ResponseLines
import SigV4.Proofs.SignedHeaders
import SigV4.Proofs.Verification

/-!
# The lines of a signed head

A head is read line by line, so a value with a line break brings lines of its own. Signing rejects
such values, but only in the headers that it signs:

* **`Request.headLines_head`**: where no name and no value has a line break, the head is cut into the
  request line, one line for each header and the empty line.
* **`Attempt.plainValues_finish_iff`**, **`sign_plainValues_iff`**: that is so exactly if none of the
  values has one that nobody checks, which are those of the headers that are left unsigned and, where
  the signature goes into a header, the access key, the region and the service.
-/

namespace SigV4

/-! ## Cutting a head into lines -/

namespace Request

variable {σ : Type}

def requestLine (request : Request σ) : Bytes :=
  request.method.text ++ ascii " " ++ request.target ++ ascii " " ++ request.version.text

/-- A header without the end of its line. -/
def headerText (header : Bytes × Bytes) : Bytes := header.1 ++ ascii ": " ++ header.2

/-- A head is made of lines, each of which is ended by a line break, and of an empty line. -/
theorem head_eq (request : Request σ) :
    request.head = (request.requestLine :: request.headers.entries.map headerText).flatMap (· ++ crlf)
      ++ crlf ++ [] := by
  have hlines : request.headers.entries.flatMap headerLine
      = (request.headers.entries.map headerText).flatMap (· ++ crlf) := by
    rw [List.flatMap_map]
    rfl
  rw [head, hlines, List.flatMap_cons, List.append_nil, requestLine]

/-- Path and query are percent-encoded, so no byte of theirs breaks the request line. -/
theorem hasLineBreak_target (request : Request σ) : hasLineBreak request.target = false := by
  have hpath : hasLineBreak (Percent.encodePath request.path) = false :=
    hasLineBreak_eq_false_iff.mpr ⟨Percent.not_mem_encodePath (by decide) (by decide) (by decide) _,
      Percent.not_mem_encodePath (by decide) (by decide) (by decide) _⟩
  have hencode (text : Bytes) : hasLineBreak (Percent.encode text) = false :=
    hasLineBreak_eq_false_iff.mpr ⟨Percent.not_mem_encode (by decide) (by decide) text,
      Percent.not_mem_encode (by decide) (by decide) text⟩
  have hqueries : hasLineBreak (Bytes.join (ascii "&") (request.queries.entries.map encodeQuery))
      = false := by
    refine hasLineBreak_join (by decide) fun part hpart => ?_
    obtain ⟨query, -, rfl⟩ := List.mem_map.mp hpart
    unfold encodeQuery
    rw [hasLineBreak_append, hasLineBreak_append, hencode, hencode]
    rfl
  have hpath' : hasLineBreak (if request.path.isEmpty then ascii "/"
      else Percent.encodePath request.path) = false := by
    split
    · rfl
    · exact hpath
  -- Encoded texts have no line break, and neither have the marks between them.
  unfold target
  rw [hasLineBreak_append, hpath', Bool.false_or]
  split
  · rfl
  · rw [hasLineBreak_append, hqueries]
    rfl

/-- The request line is one line: method and version are words, and the target is encoded. -/
theorem hasLineBreak_requestLine (request : Request σ) :
    hasLineBreak request.requestLine = false := by
  have hmethod : hasLineBreak request.method.text = false := by cases request.method <;> decide
  have hversion : hasLineBreak request.version.text = false := by cases request.version <;> decide
  unfold requestLine
  simp only [hasLineBreak_append, hmethod, hversion, hasLineBreak_target]
  decide

/-- No header value has a line break. -/
def PlainValues (request : Request σ) : Prop :=
  ∀ header ∈ request.headers.entries, hasLineBreak header.2 = false

/-- The lines of a head without line breaks in names and values are the request line and one line
for each header. -/
theorem headLines_head {request : Request σ}
    (hnames : ∀ header ∈ request.headers.entries, hasLineBreak header.1 = false)
    (hvalues : request.PlainValues) :
    Response.headLines request.head
      = (request.requestLine :: request.headers.entries.map headerText, some []) := by
  rw [head_eq]
  refine Response.headLines_flatMap (fun line hline => ?_) []
  rcases List.mem_cons.mp hline with rfl | hline
  · exact ⟨by simp [requestLine, ascii, Bytes.ofChars], not_crlf_infix request.hasLineBreak_requestLine⟩
  · obtain ⟨header, hheader, rfl⟩ := List.mem_map.mp hline
    refine ⟨by simp [headerText, ascii, Bytes.ofChars], not_crlf_infix ?_⟩
    unfold headerText
    simp only [hasLineBreak_append, hnames header hheader, hvalues header hheader]
    decide

end Request

/-! ## What is sent unchecked

Values are checked when their header is signed. A header that is left out of the signature is sent
as it came. -/

/-- A signature has no line break, as it is written in digits. -/
theorem Hex.hasLineBreak_encode (bytes : Bytes) : hasLineBreak (encode bytes) = false :=
  hasLineBreak_eq_false_iff.mpr
    ⟨fun h => absurd (isSome_value?_of_mem_encode h) (by decide),
      fun h => absurd (isSome_value?_of_mem_encode h) (by decide)⟩

/-- The list of signed headers has the names of headers, in lower case, and no lower case of a plain name
has a line break. -/
theorem Canonical.hasLineBreak_signedHeaders {headers : Headers}
    (hnames : ∀ header ∈ headers.entries, hasLineBreak header.1 = false)
    (filter : Option (Bytes → Bool)) :
    hasLineBreak (Bytes.join (ascii ";") ((signedHeaders headers filter).map (·.1))) = false := by
  refine hasLineBreak_join (by decide) fun name hname => ?_
  obtain ⟨group, hgroup, rfl⟩ := List.mem_map.mp hname
  obtain ⟨header, hheader, hlower⟩ := exists_header_of_mem_signedHeaders hgroup
  obtain ⟨hcr, hlf⟩ := hasLineBreak_eq_false_iff.mp (hnames header hheader)
  rw [← hlower, hasLineBreak_eq_false_iff]
  exact ⟨fun hmem => hcr (mem_of_mem_toLower (by decide) hmem),
    fun hmem => hlf (mem_of_mem_toLower (by decide) hmem)⟩

/-- A required header that is not skipped is signed, whatever the filter says. -/
theorem Canonical.isSigned_of_isRequired {name : Bytes} (hrequired : isRequired name = true)
    (hskipped : isSkipped name = false) (filter : Option (Bytes → Bool)) :
    isSigned filter name = true := by
  unfold isSigned
  rw [hskipped]
  cases filter with
  | none => rfl
  | some accepts => simp [hrequired]

namespace Signer

variable {σ : Type} {clock : Clock} {config : Config} {identity : Identity} {request : Request σ}
  {shared shared' : Shared} {attempt : Attempt σ} {hash : Bytes} {finished signed : SignedRequest σ}

/-- A header that is neither signed nor replaced by the signature is sent as it was given. -/
def isUnchecked (filter : Option (Bytes → Bool)) (header : Bytes × Bytes) : Bool :=
  !Canonical.isSigned filter (toLower header.1)
    && !Fields.named .caseInsensitive authorization header

/-- None of the values that nobody checks has a line break. -/
structure Guarded (attempt : Attempt σ) (config : Config) : Prop where
  headers : ∀ header ∈ attempt.request.headers.entries,
    isUnchecked config.headerFilter header = true → hasLineBreak header.2 = false
  credential : config.presigned = false → hasLineBreak attempt.credentials.accessKeyId = false
    ∧ hasLineBreak config.region = false ∧ hasLineBreak config.service = false

/-- The headers that finishing edits are signed, except `Authorization`, which holds the signature itself.
So none of them is sent unchecked. -/
theorem isUnchecked_of_edited {streaming : Bool} {name : Bytes}
    (hname : name ∈ editedHeaders config streaming) (header : Bytes × Bytes)
    (hheader : Fields.named .caseInsensitive name header = true) :
    isUnchecked config.headerFilter header = false := by
  have hlower : toLower header.1 = toLower name := by
    simpa [Fields.named, KeyOrder.caseInsensitive] using hheader
  have hsigned (hrequired : Canonical.isRequired (toLower name) = true)
      (hskipped : Canonical.isSkipped (toLower name) = false) :
      isUnchecked config.headerFilter header = false := by
    rw [isUnchecked, hlower, Canonical.isSigned_of_isRequired hrequired hskipped]
    rfl
  -- All but the first of these are required, so no filter drops them.
  have hname' := editedHeaders_subset config streaming hname
  simp only [List.mem_cons, List.not_mem_nil, or_false] at hname'
  rcases hname' with rfl | rfl | rfl | rfl
  · rw [isUnchecked, hheader, Bool.not_true, Bool.and_false]
  · exact hsigned (by decide) (by decide)
  · exact hsigned (by decide) (by decide)
  · exact hsigned (by decide) (by decide)

namespace Attempt

/-- Finishing leaves the headers alone that it does not check, in the order in which they stand. -/
theorem filter_unchecked_finish (h : attempt.finish config hash = .ok finished) :
    finished.request.headers.entries.filter (isUnchecked config.headerFilter)
      = attempt.request.headers.entries.filter (isUnchecked config.headerFilter) := by
  have hedited : ∀ name ∈ editedHeaders config attempt.hash.streaming, ∀ header,
      Fields.named .caseInsensitive name header = true →
      isUnchecked config.headerFilter header = false :=
    fun name hname => isUnchecked_of_edited hname
  rw [← Fields.filter_without hedited, (finish_edited h).headers.without_eq,
    Fields.filter_without hedited]

/-- A presigned request has no `Authorization` header, not even one that it had before. The header is
removed at the start of finishing, and nothing that is edited after it has this name. -/
theorem values_authorization_of_presigned (hpresigned : config.presigned = true)
    (h : attempt.finish config hash = .ok finished) :
    finished.request.headers.values authorization = [] := by
  simp only [finish, hpresigned, if_true] at h
  obtain ⟨listed, hlisted, h⟩ := Outcome.bind_eq_ok.mp h
  obtain ⟨canonical, -, h⟩ := Outcome.bind_eq_ok.mp h
  obtain rfl := Outcome.pure_eq_ok.mp h
  obtain ⟨canonical', -, h⟩ := Outcome.bind_eq_ok.mp hlisted
  obtain rfl := Outcome.pure_eq_ok.mp h
  -- The header is removed at the start, and of the later edits one concerns headers.
  have htoken (token : Option Bytes) (request : Request σ) :
      (token.elim request fun token => request.setQuery tokenName token).headers = request.headers := by
    cases token with
    | none => rfl
    | some token => rfl
  show Fields.values (Request.headers (if config.hashHeader then _ else _)) authorization = []
  split
  · refine (Fields.values_set_of_ne (by decide) _ hash).trans ?_
    rw [htoken]
    exact Fields.values_erase_self _ authorization
  · rw [htoken]
    exact Fields.values_erase_self _ authorization

/-- Finishing adds no names with line breaks, since the names that it sets are fixed. -/
theorem finish_names (h : attempt.finish config hash = .ok finished)
    (hnames : ∀ header ∈ attempt.request.headers.entries, hasLineBreak header.1 = false) :
    ∀ header ∈ finished.request.headers.entries, hasLineBreak header.1 = false := by
  have hedited : ∀ name ∈ editedHeaders config attempt.hash.streaming, hasLineBreak name = false := by
    have hall : ∀ name ∈ [authorization, dateName, tokenName, contentHash],
        hasLineBreak name = false := by decide
    exact fun name hname => hall name (editedHeaders_subset _ _ hname)
  exact (finish_edited h).headers.forall_names hedited hnames

/-- The value of `Authorization` has a line break exactly if one of the parts has that come from the caller.
The other parts are fixed texts, digits, a date and the list of names. -/
theorem hasLineBreak_authorizationValue (config : Config)
    (hdate : hasLineBreak attempt.amzDate = false) {signedHeaders signature : Bytes}
    (hheaders : hasLineBreak signedHeaders = false) (hsignature : hasLineBreak signature = false) :
    hasLineBreak (attempt.authorizationValue config signedHeaders signature) = false
      ↔ hasLineBreak attempt.credentials.accessKeyId = false ∧ hasLineBreak config.region = false
        ∧ hasLineBreak config.service = false := by
  have hdate8 : hasLineBreak attempt.date8 = false :=
    hasLineBreak_of_subset (List.take_subset 8 attempt.amzDate) hdate
  have hconstants : hasLineBreak Signature.algorithm = false
      ∧ hasLineBreak (ascii " Credential=") = false ∧ hasLineBreak (ascii ", SignedHeaders=") = false
      ∧ hasLineBreak (ascii ", Signature=") = false ∧ hasLineBreak (ascii "/") = false
      ∧ hasLineBreak Signature.terminator = false := by decide
  obtain ⟨halgorithm, hcredential, hlist, hlast, hslash, hterminator⟩ := hconstants
  simp [authorizationValue, credential, scope, Signature.scope, Bytes.join, hdate8, hheaders,
    hsignature, halgorithm, hcredential, hlist, hlast, hslash, hterminator]

/-- The only value of `Authorization` that a finished request has is the one with the signature; a value
from before is replaced. -/
theorem eq_of_mem_authorization (hpresigned : config.presigned = false)
    {canonical : CanonicalRequest}
    (h : Verifies config attempt.credentials hash finished attempt.amzDate canonical) :
    finished.request.headers.values authorization
      = [attempt.authorizationValue config canonical.signedHeaders finished.signature] := by
  have hcarried := h.carried
  rw [Carries, if_neg (by simp [hpresigned])] at hcarried
  exact hcarried.authorization

/-- **A finished request has plain values exactly if those are plain that nobody checks.** Every header is
of one of three kinds: it is signed and was checked, it is the one with the signature, or it was left alone.
-/
theorem plainValues_finish_iff (h : attempt.finish config hash = .ok finished)
    (hdate : hasLineBreak attempt.amzDate = false)
    (hnames : ∀ header ∈ attempt.request.headers.entries, hasLineBreak header.1 = false) :
    finished.request.PlainValues ↔ Guarded attempt config := by
  obtain ⟨canonical, hverifies⟩ := finish_ok h
  have hunchecked := filter_unchecked_finish h
  have hlist : hasLineBreak canonical.signedHeaders = false := by
    rw [CanonicalRequest.signedHeaders_of_build hverifies.rebuilt]
    exact Canonical.hasLineBreak_signedHeaders (finish_names h hnames) _
  have hsignature : hasLineBreak finished.signature = false := by
    rw [hverifies.signature]
    exact Hex.hasLineBreak_encode _
  -- Of the value with the signature only the credential can have a break.
  have hvalue := hasLineBreak_authorizationValue config hdate hlist hsignature
  constructor
  · intro hplain
    -- Headers that nobody checks are still there, and so is the credential.
    refine ⟨fun header hheader hfree => ?_, fun hpresigned => ?_⟩
    · have hmem : header ∈ finished.request.headers.entries.filter
          (isUnchecked config.headerFilter) := by
        rw [hunchecked]
        exact List.mem_filter.mpr ⟨hheader, hfree⟩
      exact hplain header (List.mem_filter.mp hmem).1
    · have hmem : attempt.authorizationValue config canonical.signedHeaders finished.signature
          ∈ finished.request.headers.values authorization := by
        rw [eq_of_mem_authorization hpresigned hverifies]
        exact List.mem_singleton_self _
      obtain ⟨header, hheader, heq⟩ := List.mem_map.mp hmem
      rw [← hvalue, ← heq]
      exact hplain header (List.mem_filter.mp hheader).1
  · intro hguarded header hheader
    -- A header is signed, or it is the one with the signature, or it was left alone.
    cases hsigned : Canonical.isSigned config.headerFilter (toLower header.1) with
    | true => exact CanonicalRequest.hasLineBreak_of_build hverifies.rebuilt hheader hsigned
    | false =>
      cases hnamed : Fields.named .caseInsensitive authorization header with
      | true =>
        have hmem : header.2 ∈ finished.request.headers.values authorization :=
          List.mem_map.mpr ⟨header, List.mem_filter.mpr ⟨hheader, hnamed⟩, rfl⟩
        cases hpresigned : config.presigned with
        | true =>
          rw [values_authorization_of_presigned hpresigned h] at hmem
          exact absurd hmem List.not_mem_nil
        | false =>
          rw [eq_of_mem_authorization hpresigned hverifies] at hmem
          rw [List.mem_singleton.mp hmem]
          exact hvalue.mpr (hguarded.credential hpresigned)
      | false =>
        have hfree : isUnchecked config.headerFilter header = true := by
          rw [isUnchecked, hsigned, hnamed]
          rfl
        have hmem : header ∈ attempt.request.headers.entries.filter
            (isUnchecked config.headerFilter) := by
          rw [← hunchecked]
          exact List.mem_filter.mpr ⟨hheader, hfree⟩
        exact hguarded.headers header (List.mem_filter.mp hmem).1 hfree

end Attempt

/-! ## Signing -/

/-- A request is prepared with the names that it has and those that announce chunks, which are plain. -/
theorem Prepared.names (h : Prepared clock config identity request shared attempt)
    (hnames : ∀ header ∈ request.headers.entries, hasLineBreak header.1 = false) :
    ∀ header ∈ attempt.request.headers.entries, hasLineBreak header.1 = false := by
  have hchunks : ∀ name ∈ chunkHeaders, hasLineBreak name = false := by decide
  have hunwrapped := (unwrapBody_headers request).forall_names hchunks hnames
  have hrequest := h.request
  split at hrequest
  · have hannounced := addChunkHeaders_edited (announceChunks_ok hrequest).2
    exact hannounced.headers.forall_names hchunks hunwrapped
  · rw [← Outcome.pure_eq_ok.mp hrequest]
    exact hunwrapped

/-- **Which requests can be signed without forging lines.** The header values of a signed request have no
line breaks exactly if those have none that nobody checks, and then the head is cut into the lines that it
was written as. -/
theorem sign_plainValues_iff [ByteSource σ]
    (hnames : ∀ header ∈ request.headers.entries, hasLineBreak header.1 = false)
    (h : sign clock config identity request shared = (.ok signed, shared')) :
    ∃ attempt, prepare clock config identity request shared = .ok attempt
      ∧ (signed.request.PlainValues ↔ Guarded attempt config)
      ∧ (Guarded attempt config →
        Response.headLines signed.request.head
          = (signed.request.requestLine
              :: signed.request.headers.entries.map Request.headerText, some [])) := by
  obtain ⟨attempt, hash, hashed, finished, hprepare, -, hfinish, hsigned⟩ := sign_steps h
  have hprepared := prepare_ok hprepare
  have hattempt := hprepared.names hnames
  have hdate : hasLineBreak attempt.amzDate = false := by
    rw [hprepared.amzDate]
    exact hasLineBreak_amzDate _
  have hiff := attempt.plainValues_finish_iff hfinish hdate hattempt
  -- Encoding the body is no edit of the headers.
  have hheaders : signed.request.headers = finished.request.headers := by
    split at hsigned
    · obtain ⟨body, hbody⟩ := encodeBody_fst finished (attempt.chunkContext config finished) hashed
      have hsigned' : signed = _ := (congrArg Prod.fst hsigned).trans hbody
      rw [hsigned']
    · have hsigned' : signed = finished := congrArg Prod.fst hsigned
      rw [hsigned']
  have hplain : signed.request.PlainValues ↔ Guarded attempt config := by
    rw [← hiff, Request.PlainValues, hheaders]
    rfl
  refine ⟨attempt, hprepare, hplain, fun hguarded => ?_⟩
  refine Request.headLines_head ?_ (hplain.mpr hguarded)
  rw [hheaders]
  exact Attempt.finish_names hfinish hattempt

/-- A request that is signed, with headers from an attempt before. -/
theorem sign_plainValues_iff_of_stale_headers :
    (∀ header ∈ sampleRequest.headers.entries, hasLineBreak header.1 = false)
    ∧ ∃ signed shared', sign ⟨⟨0⟩, none⟩ sampleConfig (.credentials sampleCredentials) sampleRequest
        {} = (.ok signed, shared')
      ∧ ∃ attempt, prepare ⟨⟨0⟩, none⟩ sampleConfig (.credentials sampleCredentials) sampleRequest {}
          = .ok attempt
        ∧ (signed.request.PlainValues ↔ Guarded attempt sampleConfig)
        ∧ (Guarded attempt sampleConfig →
          Response.headLines signed.request.head
            = (signed.request.requestLine
                :: signed.request.headers.entries.map Request.headerText, some [])) := by
  have hnames : ∀ header ∈ sampleRequest.headers.entries, hasLineBreak header.1 = false := by decide
  have hok : (sign ⟨⟨0⟩, none⟩ sampleConfig (.credentials sampleCredentials) sampleRequest
      {}).1.isOk = true := by decide +kernel
  obtain ⟨signed, shared', hsign⟩ := exists_signed_of_isOk hok
  exact ⟨hnames, signed, shared', hsign, sign_plainValues_iff hnames hsign⟩

/-- The value of a header that is never signed, with a line of its own behind the break. -/
def forgingRequest : Request MemorySource where
  path := ascii "/"
  headers := Fields.ofList .caseInsensitive
    [(ascii "Host", ascii "example.com"), (ascii "User-Agent", ascii "agent\r\nX-Injected: 1")]

def forgingConfig : Config where
  region := ascii "us-east-1"
  service := ascii "s3"

/-- The request is signed, and the break is still there. -/
theorem sign_keeps_line_break :
    (∀ header ∈ forgingRequest.headers.entries, 13 ∉ header.1 ∧ 10 ∉ header.1 ∧ 58 ∉ header.1)
    ∧ ∃ signed shared', sign ⟨⟨0⟩, none⟩ forgingConfig (.credentials sampleCredentials) forgingRequest
        {} = (.ok signed, shared')
      ∧ ¬ signed.request.PlainValues := by
  have hkept : (sign ⟨⟨0⟩, none⟩ forgingConfig (.credentials sampleCredentials) forgingRequest
      {}).1.toOption.any (fun signed => signed.request.headers.entries.contains
        (ascii "User-Agent", ascii "agent\r\nX-Injected: 1")) = true := by
    decide +kernel
  cases hsign : sign ⟨⟨0⟩, none⟩ forgingConfig (.credentials sampleCredentials) forgingRequest {} with
  | mk outcome shared' =>
    rw [hsign] at hkept
    cases outcome with
    | error failure => exact absurd hkept Bool.false_ne_true
    | ok signed =>
      refine ⟨by decide, signed, shared', rfl, fun hplain => ?_⟩
      exact absurd (hplain _ (List.contains_iff_mem.mp hkept)) (by decide)

end Signer

end SigV4
