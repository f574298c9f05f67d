import SigV4.Proofs.ChunkRoundTrip
import SigV4.Proofs.StreamEvents
import Mathlib.Data.List.Induction

/-!
# The last signature binds the stream

Every segment of a signed stream is signed from the signature before it, the first one from that of
the request. Nothing is assumed of the hash, so what is bound is bound up to a collision of the texts
that were hashed or signed:

* **`Content.stringToSign_inj`**: a text that is signed determines the signature before it and the
  hash of what it was made for. Chunks, trailers and requests never have the same text, as their first
  lines differ.
* **`eq_or_collides_of_signAll`**: chains of any lengths that end alike are the same. The induction
  goes backwards from the last segment, and where one chain ends before the other the texts of a
  request and of a segment have the same signature.
* **`contents_eq_or_collides`**: so are the chunks and the trailers of two streams.
-/

namespace SigV4

/-- Two of these texts have the same image. -/
def Collides (f : Bytes → Bytes) (texts : List Bytes) : Prop :=
  ∃ a ∈ texts, ∃ b ∈ texts, a ≠ b ∧ f a = f b

/-- A collision among some texts is one among more of them. This carries a collision that the induction
finds in the fronts of two chains to the whole chains. -/
theorem Collides.mono {f : Bytes → Bytes} {texts more : List Bytes} (h : Collides f texts)
    (hmore : texts ⊆ more) : Collides f more := by
  obtain ⟨a, ha, b, hb, hne, heq⟩ := h
  exact ⟨a, hmore ha, b, hmore hb, hne, heq⟩

/-! ## Texts that are signed

Each text begins with a line that tells what it is for, and has the signature before it in its
fourth line. -/

namespace Signature

variable {algorithm algorithm' amzDate scope previous previous' part part' next next' : Bytes}
  {rest rest' : List Bytes}

/-- A signature is the hexadecimal form of a code, and no two codes have the same form. -/
theorem hmac_eq_of_sign_eq {key : SigningKey} {a b : Bytes} (h : sign key a = sign key b) :
    Hmac.sign key.bytes a = Hmac.sign key.bytes b :=
  Hex.encode_injective h

/-- The first line stands before a line feed and the others. -/
theorem lines_cons_cons (part next : Bytes) (rest : List Bytes) :
    lines (part :: next :: rest) = part ++ 10 :: lines (next :: rest) := by
  rw [lines, Bytes.join_cons_cons, List.append_assoc]
  rfl

/-- A first line whose length is known can be cut off, whatever its bytes are. -/
theorem lines_cons_inj (hlength : part.length = part'.length)
    (h : lines (part :: next :: rest) = lines (part' :: next' :: rest')) :
    part = part' ∧ lines (next :: rest) = lines (next' :: rest') := by
  rw [lines_cons_cons, lines_cons_cons] at h
  obtain ⟨hpart, hrest⟩ := List.append_inj h hlength
  exact ⟨hpart, (List.cons.inj hrest).2⟩

/-- The first line is read up to the line feed, and date and scope are the same. -/
theorem lines_inj (halgorithm : 10 ∉ algorithm) (halgorithm' : 10 ∉ algorithm')
    (hlength : previous.length = previous'.length)
    (h : lines (algorithm :: amzDate :: scope :: previous :: next :: rest)
      = lines (algorithm' :: amzDate :: scope :: previous' :: next' :: rest')) :
    algorithm = algorithm' ∧ previous = previous' ∧ lines (next :: rest) = lines (next' :: rest') := by
  rw [lines_cons_cons, lines_cons_cons algorithm'] at h
  obtain ⟨halike, h⟩ := Bytes.append_cons_inj halgorithm halgorithm' h
  obtain ⟨-, h⟩ := lines_cons_inj rfl h
  obtain ⟨-, h⟩ := lines_cons_inj rfl h
  obtain ⟨hprevious, h⟩ := lines_cons_inj hlength h
  exact ⟨halike, hprevious, h⟩

end Signature

/-- What a segment is signed for. -/
inductive Content where
  | chunk (data : Bytes)
  | trailers (canonical : Bytes)
deriving DecidableEq, Repr

namespace Content

/-- The text whose hash is signed. -/
def hashed : Content → Bytes
  | chunk data => data
  | trailers canonical => canonical

/-- The text that is signed for a content, from the signature before it. -/
def stringToSign (amzDate scope previous : Bytes) : Content → Bytes
  | chunk data => Signature.chunkStringToSign amzDate scope previous (sha256Hex data)
  | trailers canonical => Signature.trailerStringToSign amzDate scope previous canonical

variable {amzDate scope previous previous' : Bytes} {content content' : Content}

/-- The last line of a text to sign is a hash in hexadecimal form. -/
theorem sha256_eq_of_lines {a b : Bytes}
    (h : Signature.lines [sha256Hex a] = Signature.lines [sha256Hex b]) : sha256 a = sha256 b := by
  rw [Signature.lines, Signature.lines, Bytes.join_singleton, Bytes.join_singleton] at h
  exact Hex.encode_injective h

/-- **What is signed determines what it was signed from and for**, up to the hash of the latter. The first
line tells chunks from trailers, and the signature before is cut off by its length, which all signatures
share. -/
theorem stringToSign_inj (hlength : previous.length = previous'.length)
    (h : content.stringToSign amzDate scope previous = content'.stringToSign amzDate scope previous') :
    previous = previous'
      ∧ (content.hashed = content'.hashed → content = content')
      ∧ sha256 content.hashed = sha256 content'.hashed := by
  have hchunk : 10 ∉ Signature.chunkAlgorithm := by decide
  have htrailer : 10 ∉ Signature.trailerAlgorithm := by decide
  have hne : Signature.chunkAlgorithm ≠ Signature.trailerAlgorithm := by decide
  -- The algorithm stands in the first line, so contents of different kinds have different texts.
  cases content with
  | chunk data =>
    cases content' with
    | chunk data' =>
      obtain ⟨-, hprevious, h⟩ := Signature.lines_inj hchunk hchunk hlength h
      obtain ⟨-, h⟩ := Signature.lines_cons_inj rfl h
      exact ⟨hprevious, congrArg chunk, sha256_eq_of_lines h⟩
    | trailers canonical' =>
      obtain ⟨halike, -, -⟩ := Signature.lines_inj hchunk htrailer hlength h
      exact absurd halike hne
  | trailers canonical =>
    cases content' with
    | chunk data' =>
      obtain ⟨halike, -, -⟩ := Signature.lines_inj htrailer hchunk hlength h
      exact absurd halike.symm hne
    | trailers canonical' =>
      obtain ⟨-, hprevious, h⟩ := Signature.lines_inj htrailer htrailer hlength h
      exact ⟨hprevious, congrArg trailers, sha256_eq_of_lines h⟩

/-- The text of a request is never that of a segment. -/
theorem request_ne_stringToSign (request previous : Bytes) (content : Content) :
    Signature.stringToSign amzDate scope request ≠ content.stringToSign amzDate scope previous := by
  -- Only the first lines are compared; the length of what follows them is not known here.
  have hrequest : 10 ∉ Signature.algorithm := by decide
  intro h
  cases content with
  | chunk data =>
    rw [stringToSign, Signature.stringToSign, Signature.chunkStringToSign, Signature.lines_cons_cons,
      Signature.lines_cons_cons Signature.chunkAlgorithm] at h
    obtain ⟨halike, -⟩ := Bytes.append_cons_inj hrequest (by decide) h
    exact absurd halike (by decide)
  | trailers canonical =>
    rw [stringToSign, Signature.stringToSign, Signature.trailerStringToSign,
      Signature.lines_cons_cons, Signature.lines_cons_cons Signature.trailerAlgorithm] at h
    obtain ⟨halike, -⟩ := Bytes.append_cons_inj hrequest (by decide) h
    exact absurd halike (by decide)

end Content

/-! ## Chains of signatures

A chain is compared from its end, where the signatures are known to agree. -/

/-- What the signatures of a chain depend on besides the contents. -/
structure ChainTerms where
  key : SigningKey
  amzDate : Bytes
  scope : Bytes
deriving DecidableEq, Repr

namespace ChainTerms

/-- The last signature of a chain that starts from `previous`. -/
def signAll (terms : ChainTerms) (previous : Bytes) : List Content → Bytes
  | [] => previous
  | content :: rest =>
    terms.signAll (Signature.sign terms.key
      (content.stringToSign terms.amzDate terms.scope previous)) rest

/-- The texts that are signed in such a chain. -/
def signedTexts (terms : ChainTerms) (previous : Bytes) : List Content → List Bytes
  | [] => []
  | content :: rest =>
    let text := content.stringToSign terms.amzDate terms.scope previous
    text :: terms.signedTexts (Signature.sign terms.key text) rest

variable {terms : ChainTerms} {seed request : Bytes}

/-- The last content is signed from what the others lead to. Chains are compared from their ends, so this
equation and not the definition is what the induction unfolds. -/
theorem signAll_concat (terms : ChainTerms) (previous : Bytes) (contents : List Content)
    (content : Content) :
    terms.signAll previous (contents ++ [content])
      = Signature.sign terms.key
        (content.stringToSign terms.amzDate terms.scope (terms.signAll previous contents)) := by
  induction contents generalizing previous with
  | nil => rfl
  | cons first contents ih => exact ih _

/-- The same of the texts that are signed. -/
theorem signedTexts_concat (terms : ChainTerms) (previous : Bytes) (contents : List Content)
    (content : Content) :
    terms.signedTexts previous (contents ++ [content])
      = terms.signedTexts previous contents
        ++ [content.stringToSign terms.amzDate terms.scope (terms.signAll previous contents)] := by
  induction contents generalizing previous with
  | nil => rfl
  | cons first contents ih => rw [List.cons_append, signedTexts, ih, signedTexts, signAll]; rfl

/-- All signatures of a chain have the same length, the one it starts from included. -/
theorem length_signAll (hseed : seed.length = Chunked.signatureLength) (contents : List Content) :
    (terms.signAll seed contents).length = Chunked.signatureLength := by
  induction contents generalizing seed with
  | nil => exact hseed
  | cons content contents ih => exact ih (Signature.length_sign _ _)

/-- **Chains that end alike are the same**, or texts that were hashed or signed for them collide, the
text of the request among them. -/
theorem eq_or_collides_of_signAll
    (hseed : seed = Signature.sign terms.key
      (Signature.stringToSign terms.amzDate terms.scope request))
    {contents contents' : List Content} (h : terms.signAll seed contents = terms.signAll seed contents') :
    contents = contents'
      ∨ Collides sha256 (contents.map Content.hashed ++ contents'.map Content.hashed)
      ∨ Collides (Hmac.sign terms.key.bytes)
        (Signature.stringToSign terms.amzDate terms.scope request
          :: (terms.signedTexts seed contents ++ terms.signedTexts seed contents')) := by
  have hlength : seed.length = Chunked.signatureLength := by
    rw [hseed]
    exact Signature.length_sign _ _
  -- The last contents are compared first, since it is the ends of the chains that are known to agree.
  induction contents using List.reverseRecOn generalizing contents' with
  | nil =>
    cases contents' using List.reverseRecOn with
    | nil => exact .inl rfl
    | append_singleton contents' content' _ =>
      -- The request and a segment have the same signature.
      rw [signAll, signAll_concat] at h
      refine .inr (.inr ⟨_, List.mem_cons_self, _, ?_, Content.request_ne_stringToSign _ _ _,
        Signature.hmac_eq_of_sign_eq (hseed.symm.trans h)⟩)
      rw [signedTexts_concat]
      simp
  | append_singleton contents content ih =>
    cases contents' using List.reverseRecOn with
    | nil =>
      rw [signAll, signAll_concat] at h
      refine .inr (.inr ⟨_, List.mem_cons_self, _, ?_, Content.request_ne_stringToSign _ _ _,
        Signature.hmac_eq_of_sign_eq (hseed.symm.trans h.symm)⟩)
      rw [signedTexts_concat]
      simp
    | append_singleton contents' content' _ =>
      rw [signAll_concat, signAll_concat] at h
      rw [signedTexts_concat, signedTexts_concat, List.map_append, List.map_append]
      by_cases htext : content.stringToSign terms.amzDate terms.scope (terms.signAll seed contents)
          = content'.stringToSign terms.amzDate terms.scope (terms.signAll seed contents')
      · -- The last segments were signed from the same signature, so the chains before them end alike.
        obtain ⟨hprevious, hcontent, hhash⟩ := Content.stringToSign_inj
          ((length_signAll hlength contents).trans (length_signAll hlength contents').symm) htext
        -- Equal hashes are those of equal texts, or they are the collision that is looked for.
        by_cases hhashed : content.hashed = content'.hashed
        · rcases ih hprevious with heq | hcollides | hcollides
          · exact .inl (by rw [heq, hcontent hhashed])
          · exact .inr (.inl (hcollides.mono (by grind)))
          · exact .inr (.inr (hcollides.mono (by grind)))
        · exact .inr (.inl ⟨_, by simp, _, by simp, hhashed, hhash⟩)
      · exact .inr (.inr ⟨_, by simp, _, by simp, htext, Signature.hmac_eq_of_sign_eq h⟩)

end ChainTerms

/-! ## Streams

What is proved of chains is read off a stream by the account of its events. -/

/-- The part of a context that its signatures depend on. Chunk size and trailers do not belong to it. -/
def ChunkContext.chainTerms (c : ChunkContext) : ChainTerms := ⟨c.key, c.amzDate, c.scope⟩

/-- What was signed in this event, if anything. -/
def ChunkStream.Event.content? : ChunkStream.Event → Option Content
  | .framed data => some (.chunk data)
  | .closed values => some (.trailers (Chunked.canonicalTrailers values))
  | .interrupted _ => none

/-- What is produced is a chain of signatures. Each segment takes up the last signature and leaves its own,
and a failure in between leaves the chain where it was. -/
theorem ChunkContext.lastSignature_produced {c : ChunkContext} (hsigned : c.signed = true)
    (previous : Bytes) (events : List ChunkStream.Event) :
    lastSignature previous (c.produced previous events)
      = c.chainTerms.signAll previous (events.filterMap ChunkStream.Event.content?) := by
  induction events generalizing previous with
  | nil => rfl
  | cons event events ih =>
    cases event with
    | framed data =>
      rw [produced, lastSignature_cons, ih]
      simp only [List.filterMap_cons, ChunkStream.Event.content?, ChainTerms.signAll, chainTerms,
        Content.stringToSign, chunkSegment, signChunk, if_pos hsigned, Option.getD_some]
    | closed values =>
      rw [produced, lastSignature_cons, ih]
      simp only [List.filterMap_cons, ChunkStream.Event.content?, ChainTerms.signAll, chainTerms,
        Content.stringToSign, trailerSegment, signTrailers, if_pos hsigned, Option.getD_some]
    -- Nothing is signed where a reading fails, and the next segment takes up the same signature.
    | interrupted taken => exact ih previous

namespace ChunkStream

variable {ρ : Type} {pull : Pull ρ}

/-- The chunks that a stream frames and the trailers that it writes in readings of these lengths, in
the order of their segments (`reads_accounts`). -/
def contents (pull : Pull ρ) (lengths : List Nat) (stream : ChunkStream ρ) (shared : Shared) :
    List Content :=
  (history pull lengths stream shared).filterMap Event.content?

/-- The signature that readings of these lengths leave. -/
def signatureAfter (pull : Pull ρ) (lengths : List Nat) (stream : ChunkStream ρ) (shared : Shared) :
    Bytes :=
  (Pull.reads (ChunkStream.pull pull) lengths stream shared).2.1.previous

/-- The last signature of a stream is that of the chain of its contents. -/
theorem signatureAfter_eq {c : ChunkContext} (hsigned : c.signed = true) {source : ρ}
    {stream : ChunkStream ρ} (hstart : start (some source) c = .ok stream) (lengths : List Nat)
    (shared : Shared) :
    signatureAfter pull lengths stream shared
      = c.chainTerms.signAll c.seed (contents pull lengths stream shared) := by
  obtain ⟨s', shared', hreads, haccounts⟩ := reads_accounts pull lengths stream shared
  have hcontext : stream.context = c := by rw [start_ok hstart]
  have hseed : stream.previous = c.seed := by rw [start_ok hstart]
  rw [signatureAfter, hreads, contents, ← ChunkContext.lastSignature_produced hsigned, ← hseed,
    ← hcontext]
  exact haccounts.previous

/-- **Two streams with the same last signature have the same contents**, or texts that were hashed or
signed for them collide. Nothing is asked of the sources, the readings or the trailers, some of which
may fail, and no stream needs to be at its end. -/
theorem contents_eq_or_collides {ρ' : Type} {pull' : Pull ρ'} {c : ChunkContext}
    (hsigned : c.signed = true) {request : Bytes}
    (hseed : c.seed = Signature.sign c.key (Signature.stringToSign c.amzDate c.scope request))
    {chunkSize : UInt64} {trailers : List Trailer} {source : ρ} {source' : ρ'}
    {stream : ChunkStream ρ} {stream' : ChunkStream ρ'}
    (hstart : start (some source) c = .ok stream)
    (hstart' : start (some source') { c with chunkSize, trailers } = .ok stream')
    {lengths lengths' : List Nat} {shared shared' : Shared}
    (hlast : signatureAfter pull lengths stream shared
      = signatureAfter pull' lengths' stream' shared') :
    contents pull lengths stream shared = contents pull' lengths' stream' shared'
      ∨ Collides sha256 ((contents pull lengths stream shared).map Content.hashed
        ++ (contents pull' lengths' stream' shared').map Content.hashed)
      ∨ Collides (Hmac.sign c.key.bytes)
        (Signature.stringToSign c.amzDate c.scope request
          :: (c.chainTerms.signedTexts c.seed (contents pull lengths stream shared)
            ++ c.chainTerms.signedTexts c.seed (contents pull' lengths' stream' shared'))) := by
  have hsigned' : ({ c with chunkSize, trailers } : ChunkContext).signed = true := hsigned
  have hseed' : c.seed = Signature.sign c.chainTerms.key
      (Signature.stringToSign c.chainTerms.amzDate c.chainTerms.scope request) := hseed
  have hterms : ({ c with chunkSize, trailers } : ChunkContext).chainTerms = c.chainTerms := rfl
  rw [signatureAfter_eq hsigned hstart, signatureAfter_eq hsigned' hstart', hterms] at hlast
  exact ChainTerms.eq_or_collides_of_signAll hseed' hlast

/-- Chunks of four bytes, of which the first is signed from the signature of a request. -/
def seededContext : ChunkContext :=
  { sampleContext with
    seed := Signature.sign sampleContext.key
      (Signature.stringToSign sampleContext.amzDate sampleContext.scope (ascii "PUT"))
    chunkSize := 4 }

/-- A stream over four bytes, with this context. -/
def seededStream (context : ChunkContext) : ChunkStream MemorySource where
  source := ⟨ascii "abcd"⟩
  context := context
  previous := seededContext.seed

/-- Chunks of four bytes and chunks of five are the same for this payload, and so are the trailers,
whose names differ in case. Both streams are read to their ends. -/
theorem contents_eq_or_collides_of_other_sizes :
    let shared : Shared := { trailers := [.settled (.ok (ascii "abc"))] }
    let stream := seededStream seededContext
    let stream' :=
      seededStream { seededContext with chunkSize := 5, trailers := [⟨ascii "X-Check", 0⟩] }
    let all := contents ByteSource.pull [1000] stream shared
    let all' := contents ByteSource.pull [7, 1000] stream' shared
    signatureAfter ByteSource.pull [1000] stream shared
        = signatureAfter ByteSource.pull [7, 1000] stream' shared
      ∧ (all = all'
        ∨ Collides sha256 (all.map Content.hashed ++ all'.map Content.hashed)
        ∨ Collides (Hmac.sign seededContext.key.bytes)
          (Signature.stringToSign seededContext.amzDate seededContext.scope (ascii "PUT")
            :: (seededContext.chainTerms.signedTexts seededContext.seed all
              ++ seededContext.chainTerms.signedTexts seededContext.seed all'))) := by
  intro shared stream stream' all all'
  have hstart : start (some ⟨ascii "abcd"⟩) seededContext = .ok stream := rfl
  have hstart' : start (some ⟨ascii "abcd"⟩)
      { seededContext with chunkSize := 5, trailers := [⟨ascii "X-Check", 0⟩] } = .ok stream' := rfl
  have hall : all = all' := by decide +kernel
  have hlast : signatureAfter ByteSource.pull [1000] stream shared
      = signatureAfter ByteSource.pull [7, 1000] stream' shared := by
    rw [signatureAfter_eq rfl hstart, signatureAfter_eq rfl hstart']
    exact congrArg _ hall
  have hseed : seededContext.seed = Signature.sign seededContext.key
      (Signature.stringToSign seededContext.amzDate seededContext.scope (ascii "PUT")) := by
    simp only [seededContext]
  refine ⟨hlast, ?_⟩
  exact contents_eq_or_collides rfl hseed hstart hstart' hlast

end ChunkStream

end SigV4
