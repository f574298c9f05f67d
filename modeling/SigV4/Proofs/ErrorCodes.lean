import SigV4.Proofs.Collections
import SigV4.Proofs.ErrorPlaces

/-!
# The error code is found in every carrier

A service names its error in a header, in an element of the body or in a member of the body, in this order
of precedence (`Response.Names`). The texts around the code are arbitrary, as long as the key of the carrier
does not stand in front of it.

* **`xmlErrorCode_eq`**: a tag is found where it stands, since none begins inside another one.
* **`jsonErrorCode_eq_some`**: a key ends in the quote that another one begins with. So the text in front may
  overlap the key, and a last part of the key is then taken for what stands behind it. It has no colon, and
  the search goes on to the same one.
* **`errorCode_of_names`**, **`errorCode_of_unnamed`**: what is named is found, and nothing else is.
* **`finds_named_code`**: the sum of it, with the search by places, which does not leave the text.
-/

namespace SigV4.Response

/-- A name that is ended by none of its bytes, whatever carries it. -/
structure PlainCode (code : Bytes) : Prop where
  angle : 60 ∉ code
  quote : 34 ∉ code
  colon : 58 ∉ code
  hash : 35 ∉ code

/-- The response names this code. Where JSON has blanks, any text without a colon or a quote may stand. -/
inductive Names (response : Response) (code : Bytes) : Prop where
  | header (h : response.headers.First (ascii "x-amzn-ErrorType") code)
  | headerUpToColon (rest : Bytes)
      (h : response.headers.First (ascii "x-amzn-ErrorType") (code ++ ascii ":" ++ rest))
  | element (front rest : Bytes) (hheader : response.headers.Lacks (ascii "x-amzn-ErrorType"))
      (hfront : ¬ ascii "<Code>" <:+: front)
      (h : response.body = front ++ ascii "<Code>" ++ code ++ ascii "</Code>" ++ rest)
  | member (front before behind shape rest : Bytes)
      (hheader : response.headers.Lacks (ascii "x-amzn-ErrorType"))
      (hbody : ¬ ascii "<Code>" <:+: response.body) (hfront : ¬ ascii "\"__type\"" <:+: front)
      (hbefore : 58 ∉ before) (hbehind : 34 ∉ behind) (hquote : 34 ∉ shape)
      (hshape : shape = [] ∨ ∃ name, shape = name ++ ascii "#")
      (h : response.body = front ++ ascii "\"__type\"" ++ before ++ ascii ":" ++ behind ++ ascii "\""
        ++ shape ++ code ++ ascii "\"" ++ rest)

/-- The response has none of the carriers. -/
structure Unnamed (response : Response) : Prop where
  header : response.headers.Lacks (ascii "x-amzn-ErrorType")
  element : ¬ ascii "<Code>" <:+: response.body
  member : ¬ ascii "\"__type\"" <:+: response.body

variable {response : Response} {code front rest : Bytes}

/-! ## The carriers, one by one

A code may stand in a header, in an element or in a member. Each carrier is looked at on its own
first. -/

/-- Without the opening tag there is no element to look at. -/
theorem xmlErrorCode_eq_none {body : Bytes} (h : ¬ ascii "<Code>" <:+: body) : xmlErrorCode body = none := by
  rw [xmlErrorCode, Bytes.cut?_eq_none_iff.mpr h]
  rfl

/-- Without the key there is no member to look at. -/
theorem jsonErrorCode_eq_none {body : Bytes} (h : ¬ ascii "\"__type\"" <:+: body) :
    jsonErrorCode body = none := by
  rw [jsonErrorCode, Bytes.cut?_eq_none_iff.mpr h]
  rfl

/-- The code stands between the first opening tag and the first closing tag behind it. The opening tag may
be preceded by any text without that tag, and the closing one is found because the code has no angle
bracket. -/
theorem xmlErrorCode_eq (hcode : 60 ∉ code) (hfront : ¬ ascii "<Code>" <:+: front) (rest : Bytes) :
    xmlErrorCode (front ++ ascii "<Code>" ++ code ++ ascii "</Code>" ++ rest) = some code := by
  have htag : Bytes.cut? (ascii "<Code>") (front ++ ascii "<Code>" ++ (code ++ ascii "</Code>" ++ rest))
      = some (front, code ++ ascii "</Code>" ++ rest) :=
    Bytes.cut?_append_of_not_infix (by decide) hfront _
  have hend : Bytes.cut? (ascii "</Code>") (code ++ ascii "</Code>" ++ rest) = some (code, rest) :=
    Bytes.cut?_append hcode rest
  simp only [List.append_assoc] at htag hend ⊢
  rw [xmlErrorCode, htag]
  dsimp only [Option.bind_eq_bind, Option.bind_some]
  rw [hend]
  rfl

/-- A name without a `#` is what follows the last one, and it is the whole text if there is none. The search
goes from the end, so the namespace may have more of them. -/
theorem withoutNamespace_append {shape : Bytes} (hcode : 35 ∉ code)
    (hshape : shape = [] ∨ ∃ name, shape = name ++ ascii "#") :
    withoutNamespace (shape ++ code) = code := by
  have hreverse : 35 ∉ code.reverse := fun hmem => hcode (List.mem_reverse.mp hmem)
  rw [withoutNamespace, List.reverse_append]
  rcases hshape with rfl | ⟨name, rfl⟩
  · rw [List.reverse_nil, List.append_nil, Bytes.takeWhile_of_not_mem hreverse, List.reverse_reverse]
  · have hhash : (name ++ ascii "#").reverse = 35 :: name.reverse := List.reverse_append
    rw [hhash, Bytes.takeWhile_append_cons hreverse, List.reverse_reverse]

/-- Behind the key the search goes to the next colon, the next quote, and the quote that ends the string.
What stands between these has no colon and no quote of its own, as the shape of a member has it, so each of
them is the one in question. -/
theorem jsonErrorCode_eq_some {before behind shape : Bytes} (hcode : PlainCode code)
    (hfront : ¬ ascii "\"__type\"" <:+: front) (hbefore : 58 ∉ before) (hbehind : 34 ∉ behind)
    (hquote : 34 ∉ shape) (hshape : shape = [] ∨ ∃ name, shape = name ++ ascii "#") (rest : Bytes) :
    jsonErrorCode (front ++ ascii "\"__type\"" ++ before ++ ascii ":" ++ behind ++ ascii "\"" ++ shape ++ code
      ++ ascii "\"" ++ rest) = some code := by
  have hname : 34 ∉ shape ++ code := by simp [hquote, hcode.quote]
  have hstop : Bytes.cut? (ascii "\"") (shape ++ code ++ ascii "\"" ++ rest) = some (shape ++ code, rest) :=
    Bytes.cut?_append hname rest
  have hstart : Bytes.cut? (ascii "\"") (behind ++ ascii "\"" ++ (shape ++ code ++ ascii "\"" ++ rest))
      = some (behind, shape ++ code ++ ascii "\"" ++ rest) := Bytes.cut?_append hbehind _
  obtain ⟨passed, left, hleft, hkey⟩ := Bytes.exists_cut?_append hfront
    (before ++ ascii ":" ++ (behind ++ ascii "\"" ++ (shape ++ code ++ ascii "\"" ++ rest)))
  -- What is left over of the key has no colon either.
  have hgap : 58 ∉ left ++ before := by
    intro hmem
    rcases List.mem_append.mp hmem with hmem | hmem
    · exact absurd (hleft.subset hmem) (by decide)
    · exact hbefore hmem
  have hcolon : Bytes.cut? (ascii ":") (left ++ before ++ ascii ":"
        ++ (behind ++ ascii "\"" ++ (shape ++ code ++ ascii "\"" ++ rest)))
      = some (left ++ before, behind ++ ascii "\"" ++ (shape ++ code ++ ascii "\"" ++ rest)) :=
    Bytes.cut?_append hgap _
  simp only [List.append_assoc] at hkey hcolon hstart hstop ⊢
  -- The key, the colon and both quotes are found one after the other.
  rw [jsonErrorCode, hkey]
  dsimp only [Option.bind_eq_bind, Option.bind_some]
  rw [hcolon]
  dsimp only [Option.bind_some]
  rw [hstart]
  dsimp only [Option.bind_some]
  rw [hstop]
  dsimp only [Option.bind_some]
  rw [withoutNamespace_append hcode.hash hshape]

/-! ## Precedence -/

/-- Without the header the body is searched, and an element takes precedence over a member. -/
theorem errorCode_of_lacks (h : response.headers.Lacks (ascii "x-amzn-ErrorType")) :
    response.errorCode = (xmlErrorCode response.body <|> jsonErrorCode response.body) := by
  rw [errorCode, Fields.get?_eq_none_iff.mpr h]

/-- **A code that is named is found**, whatever stands around it. One case for each carrier; those that come
later ask for the absence of the earlier ones, and this is where the precedence is used. -/
theorem errorCode_of_names (hcode : PlainCode code) (h : response.Names code) :
    response.errorCode = some code := by
  -- The carriers are asked in this order, and each case says that those before it have nothing.
  cases h with
  | header h =>
    rw [errorCode, Fields.get?_eq_some_iff.mpr h]
    exact congrArg some (Bytes.takeWhile_of_not_mem hcode.colon)
  | headerUpToColon rest h =>
    rw [List.append_assoc] at h
    rw [errorCode, Fields.get?_eq_some_iff.mpr h]
    exact congrArg some (Bytes.takeWhile_append_cons hcode.colon rest)
  | element front rest hheader hfront h =>
    rw [errorCode_of_lacks hheader, h, xmlErrorCode_eq hcode.angle hfront]
    rfl
  | member front before behind shape rest hheader hbody hfront hbefore hbehind hquote hshape h =>
    rw [errorCode_of_lacks hheader, xmlErrorCode_eq_none hbody, h,
      jsonErrorCode_eq_some hcode hfront hbefore hbehind hquote hshape]
    rfl

/-- A response without any of the carriers has no code, even if parts of a carrier occur in it. -/
theorem errorCode_of_unnamed (h : response.Unnamed) : response.errorCode = none := by
  rw [errorCode_of_lacks h.header, xmlErrorCode_eq_none h.element, jsonErrorCode_eq_none h.member]
  rfl

/-- **The error code is found in every carrier.** No response makes the search leave its text, and a response
without a carrier has no code. -/
theorem finds_named_code (response : Response) :
    (∀ code, PlainCode code → response.Names code → response.errorCode = some code)
      ∧ (response.Unnamed → response.errorCode = none)
      ∧ response.errorCodeAt = .ok response.errorCode :=
  ⟨fun _ => errorCode_of_names, errorCode_of_unnamed, errorCodeAt_eq response⟩

/-- The text in front of the key is the start of a key itself, and the shape has two namespaces. -/
def overlappingKey : Response where
  headers := .ofList _ [(ascii "x-amzn-Error", ascii "none"), (ascii "Date", ascii "today")]
  body := ascii "[ <code> \"__type\"__type\" \t:\r\n\"com.amazon#coral#RequestExpired\" ] </Code>"

/-- No tag and no key is whole. -/
def halfCarriers : Response where
  headers := .ofList _ [(ascii "x-amzn-Error", ascii "RequestExpired")]
  body := ascii "<Code RequestExpired</Code> \"__type : \"RequestExpired\""

theorem finds_named_code_of_overlapping_key :
    PlainCode (ascii "RequestExpired") ∧ overlappingKey.Names (ascii "RequestExpired")
      ∧ overlappingKey.errorCode = some (ascii "RequestExpired")
      ∧ halfCarriers.Unnamed ∧ halfCarriers.errorCode = none := by
  have hcode : PlainCode (ascii "RequestExpired") := ⟨by decide, by decide, by decide, by decide⟩
  have hnames : overlappingKey.Names (ascii "RequestExpired") := by
    refine .member (ascii "[ <code> \"__type") (ascii " \t") (ascii "\r\n") (ascii "com.amazon#coral#")
      (ascii " ] </Code>") ?_ ?_ ?_ ?_ ?_ ?_ ?_ ?_
    · show ∀ entry ∈ overlappingKey.headers.entries, _
      decide +kernel
    · decide +kernel
    · decide +kernel
    · decide
    · decide
    · decide
    · exact .inr ⟨ascii "com.amazon#coral", by decide⟩
    · decide +kernel
  have hunnamed : halfCarriers.Unnamed := by
    refine ⟨?_, ?_, ?_⟩
    · show ∀ entry ∈ halfCarriers.headers.entries, _
      decide +kernel
    · decide +kernel
    · decide +kernel
  exact ⟨hcode, hnames, (finds_named_code overlappingKey).1 _ hcode hnames, hunnamed,
    (finds_named_code halfCarriers).2.1 hunnamed⟩

end SigV4.Response
