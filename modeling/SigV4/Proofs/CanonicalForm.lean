import SigV4.Canonical.Request
import SigV4.Proofs.Collections

/-!
# What a canonical request depends on

Method, path, the queries that are signed and the headers that are signed are all that the canonical
form of a request is built from (`CanonicalRequest.build_congr`). So a request keeps its canonical
form when it is given a header that is never signed (`Canonical.signedHeaders_of_filter_eq`), a
signature in its query (`Canonical.canonicalQuery_set_signature`) or another body.
-/

namespace SigV4

/-! ## Outcomes of several steps -/

namespace Outcome

variable {α β : Type}

/-- A computation in two steps succeeds if both do, the second with what the first has found. -/
theorem bind_eq_ok {x : Outcome α} {f : α → Outcome β} {b : β} :
    x >>= f = .ok b ↔ ∃ a, x = .ok a ∧ f a = .ok b := by
  cases x <;> simp [bind, Except.bind]

theorem pure_eq_ok {a b : α} : (pure a : Outcome α) = .ok b ↔ a = b := by
  simp [pure, Except.pure]

theorem throw_ne_ok {failure : Failure} {b : α} : (throw failure : Outcome α) ≠ .ok b := by
  simp [throw, throwThe, MonadExceptOf.throw]

end Outcome

namespace Canonical

/-- The header that carries the signature cannot be signed itself. -/
theorem isSkipped_authorization : isSkipped (toLower (ascii "Authorization")) = true := by decide

/-- The signed headers are found by a filter of the headers themselves, and only what passes it is
lower-cased and gathered. Collections that agree on the filter then agree on all that follows. -/
theorem signedHeaders_eq_gather (headers : Headers) (filter : Option (Bytes → Bool)) :
    signedHeaders headers filter
      = gather ((headers.entries.filter fun header => isSigned filter (toLower header.1)).map
          fun (name, value) => (toLower name, value)) := by
  rw [signedHeaders, List.filter_map]
  rfl

/-- Headers that are never signed are not looked at. The filter of the configuration comes behind the list
of skipped names and cannot bring them back. -/
theorem signedHeaders_of_filter_eq {headers others : Headers} (filter : Option (Bytes → Bool))
    (h : others.entries.filter (fun header => !isSkipped (toLower header.1))
      = headers.entries.filter fun header => !isSkipped (toLower header.1)) :
    signedHeaders others filter = signedHeaders headers filter := by
  have hkept (headers : Headers) :
      headers.entries.filter (fun header => isSigned filter (toLower header.1))
        = (headers.entries.filter fun header => !isSkipped (toLower header.1)).filter
          fun header => isSigned filter (toLower header.1) := by
    rw [List.filter_filter]
    refine List.filter_congr fun header _ => ?_
    rw [isSigned]
    cases isSkipped (toLower header.1) <;> simp
  rw [signedHeaders_eq_gather, signedHeaders_eq_gather, hkept, h, ← hkept]

section

variable {name : Bytes} (hname : isSkipped (toLower name) = true) (headers : Headers)
  (filter : Option (Bytes → Bool))

include hname

/-- However the name is spelled, its values are left out. -/
theorem named_of_skipped (header : Bytes × Bytes)
    (hheader : Fields.named .caseInsensitive name header = true) :
    (!isSkipped (toLower header.1)) = false := by
  have hlower : toLower header.1 = toLower name := eq_of_beq hheader
  rw [hlower, hname]
  rfl

/-- What a header that is never signed is set to does not matter, whatever values it had. -/
theorem signedHeaders_set_of_skipped (value : Bytes) :
    signedHeaders (headers.set name value) filter = signedHeaders headers filter := by
  apply signedHeaders_of_filter_eq
  exact Fields.filter_set (named_of_skipped hname) headers value

theorem signedHeaders_add_of_skipped (value : Bytes) :
    signedHeaders (headers.add name value) filter = signedHeaders headers filter := by
  apply signedHeaders_of_filter_eq
  exact Fields.filter_add (named_of_skipped hname) headers value

theorem signedHeaders_erase_of_skipped :
    signedHeaders (headers.erase name) filter = signedHeaders headers filter := by
  apply signedHeaders_of_filter_eq
  exact Fields.filter_erase (named_of_skipped hname) headers

end

/-- A presigned request has its signature in the query, and it is signed without it. So the canonical query
is the same before the signature is there and after. -/
theorem canonicalQuery_set_signature (queries : Queries) (value : Bytes) :
    canonicalQuery (queries.set signatureParameter value) true = canonicalQuery queries true := by
  have hdropped (query : Bytes × Bytes)
      (hquery : Fields.named .bytewise signatureParameter query = true) :
      (!(true && query.1 == signatureParameter)) = false := by
    simpa [Fields.named, KeyOrder.bytewise] using hquery
  rw [canonicalQuery, canonicalQuery, Fields.filter_set hdropped]

end Canonical

namespace CanonicalRequest

variable {σ : Type} {request other : Request σ} {config : Config} {hash : Bytes}

/-- The canonical request depends on four things only. Version, body and trailers are not among them, nor is
any header or parameter that is left out. -/
theorem build_congr (hmethod : other.method = request.method) (hpath : other.path = request.path)
    (hqueries : Canonical.canonicalQuery other.queries config.presigned
      = Canonical.canonicalQuery request.queries config.presigned)
    (hheaders : Canonical.signedHeaders other.headers config.headerFilter
      = Canonical.signedHeaders request.headers config.headerFilter) :
    build other config hash = build request config hash := by
  rw [build, build, hmethod, hpath, hqueries, hheaders]

/-- The list of signed headers follows from the headers alone. -/
theorem signedHeaders_of_build {canonical : CanonicalRequest}
    (h : build request config hash = .ok canonical) :
    canonical.signedHeaders = Bytes.join (ascii ";")
      ((Canonical.signedHeaders request.headers config.headerFilter).map (·.1)) := by
  simp only [build] at h
  split at h
  · exact absurd h Outcome.throw_ne_ok
  · obtain ⟨lines, -, hcanonical⟩ := Outcome.bind_eq_ok.mp h
    rw [← Outcome.pure_eq_ok.mp hcanonical]

theorem payloadHash_of_build {canonical : CanonicalRequest}
    (h : build request config hash = .ok canonical) : canonical.payloadHash = hash := by
  simp only [build] at h
  split at h
  · exact absurd h Outcome.throw_ne_ok
  · obtain ⟨lines, -, hcanonical⟩ := Outcome.bind_eq_ok.mp h
    rw [← Outcome.pure_eq_ok.mp hcanonical]

end CanonicalRequest

end SigV4
