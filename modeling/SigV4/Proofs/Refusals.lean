import SigV4.Proofs.Resigning

/-!
# How signing refuses one-shot payloads

Signing never reads a one-shot payload, so it changes nothing where it fails (`Signer.sign_of_one_shot`).
It refuses a payload as read if the payload's own stream is marked as opened, and for no other reason
(`Signer.sign_eq_alreadyRead_iff`): every other step fails with failures of its own (`Outcome.Avoids`).
-/

namespace SigV4

/-! ## What signing leaves alone

A signing that fails leaves the state as it was, unless hashing has read the body by then. -/

namespace Signer

variable {σ : Type} {clock : Clock} {config : Config} {identity : Identity} {request : Request σ}
  {shared : Shared}

/-- Where hashing leaves the state as it is, a signing that fails does. -/
theorem snd_sign_of_error [ByteSource σ] {failure : Failure} {after : Shared}
    (hidle : ∀ attempt, Prepared clock config identity request shared attempt →
      (hashPayload attempt.request.body attempt.hash shared).2 = shared)
    (hsign : sign clock config identity request shared = (.error failure, after)) : after = shared := by
  simp only [sign] at hsign
  split at hsign
  · exact (Prod.mk.inj hsign).2.symm
  next attempt hprepare =>
    -- Only hashing can change the state of a signing that fails.
    have hkept := hidle attempt (prepare_ok hprepare)
    split at hsign
    next hhash =>
      rw [hhash] at hkept
      exact (Prod.mk.inj hsign).2.symm.trans hkept
    next hhash =>
      rw [hhash] at hkept
      split at hsign
      · exact (Prod.mk.inj hsign).2.symm.trans hkept
      · split at hsign
        · exact absurd (Prod.mk.inj hsign).1 (by simp)
        · exact absurd (Prod.mk.inj hsign).1 (by simp)

/-- **Signing leaves a one-shot payload unread.** It fails and nothing has happened, or it returns the
payload as it is, or encoded in a stream that was not there before. -/
theorem sign_of_one_shot [ByteSource σ] (hreplayable : (unwrapBody request).body.replayable = false) :
    (∃ failure, sign clock config identity request shared = (.error failure, shared))
    ∨ (∃ signed, sign clock config identity request shared = (.ok signed, shared)
      ∧ signed.request.body = (unwrapBody request).body)
    ∨ ∃ signed context, sign clock config identity request shared = (.ok signed, shared.newStream.2)
      ∧ context.chunkSize ≠ 0
      ∧ signed.request.body = .chunked shared.newStream.1 (unwrapBody request).body context := by
  rcases hsign : sign clock config identity request shared with ⟨outcome, after⟩
  cases outcome with
  | error failure =>
    have hafter : after = shared := by
      refine snd_sign_of_error (fun attempt hprepared => ?_) hsign
      exact hashPayload_snd_of_one_shot ((congrArg Body.replayable hprepared.body_eq).trans hreplayable)
        attempt.hash shared
    exact .inl ⟨failure, by rw [hafter]⟩
  | ok signed =>
    obtain ⟨hash, text, hashed, -, hhash, hbody⟩ := sign_body hsign
    obtain rfl : hashed = shared := hashPayload_of_one_shot hreplayable hhash
    rcases hbody with ⟨-, hbody, rfl⟩ | ⟨context, -, hsize, -, hbody, rfl⟩
    · exact .inr (.inl ⟨signed, rfl, hbody⟩)
    · exact .inr (.inr ⟨signed, context, rfl, hsize, hbody⟩)

end Signer

/-! ## Failures of other steps -/

namespace Outcome

variable {α β : Type} {failure : Failure} {x : Outcome α} {f : α → Outcome β}

/-- The outcome is not this failure. -/
def Avoids (failure : Failure) (x : Outcome α) : Prop := x ≠ .error failure

theorem avoids_ok (a : α) : Avoids failure (.ok a : Outcome α) := by simp [Avoids]

theorem avoids_error {other : Failure} (h : other ≠ failure) :
    Avoids failure (.error other : Outcome α) :=
  fun heq => h (Except.error.inj heq)

/-- A failure is the same whatever was to be computed. -/
theorem Avoids.cast {other : Failure} (h : Avoids failure (.error other : Outcome α)) :
    Avoids failure (.error other : Outcome β) :=
  avoids_error fun heq => h (congrArg Except.error heq)

/-- A computation in two steps fails as one of them does. The second is asked of every result of the first,
which suffices where its failures do not depend on the result. -/
theorem Avoids.bind (hx : Avoids failure x) (hf : ∀ a, Avoids failure (f a)) :
    Avoids failure (x >>= f) := by
  cases x with
  | error other => exact avoids_error fun heq => hx (congrArg Except.error heq)
  | ok a => exact hf a

/-- A check in front of what goes on. -/
theorem Avoids.throwIf {other : Failure} {p : Prop} [Decidable p] (hx : Avoids failure x)
    (hother : p → other ≠ failure) (g : PUnit → Outcome α) :
    Avoids failure (if p then throw other >>= g else x) := by
  split
  next hp => exact avoids_error (hother hp)
  next => exact hx

/-- A list is gone through until one member fails, so the failure is that of a member. -/
theorem Avoids.mapM {g : α → Outcome β} {as : List α} (hg : ∀ a ∈ as, Avoids failure (g a)) :
    Avoids failure (as.mapM g) := by
  induction as with
  | nil => exact avoids_ok []
  | cons a as ih =>
    obtain ⟨ha, has⟩ := List.forall_mem_cons.mp hg
    rw [List.mapM_cons]
    exact ha.bind fun _ => (ih has).bind fun _ => avoids_ok _

end Outcome

namespace Signer

open Outcome

variable {σ : Type} {clock : Clock} {config : Config} {identity : Identity} {request : Request σ}
  {shared : Shared} {failure : Failure}

/-- A configuration that is not valid fails for reasons of its own. -/
theorem validate_avoids (config : Config) (hconfiguration : ∀ fault, .configuration fault ≠ failure) :
    Avoids failure config.validate := by
  unfold Config.validate
  dsimp only
  refine .throwIf (.throwIf (.throwIf (.throwIf ?_ ?_ _) ?_ _) ?_ _) ?_ _
  · split
    · split
      · exact avoids_error (hconfiguration _)
      · split
        · exact avoids_error (hconfiguration _)
        · exact avoids_ok ()
    · exact avoids_ok ()
  all_goals exact fun _ => hconfiguration _

/-- Canonicalisation fails for reasons of its own. -/
theorem build_avoids (request : Request σ) (config : Config) (hash : Bytes)
    (hcanonical : ∀ fault, .canonicalization fault ≠ failure) :
    Avoids failure (CanonicalRequest.build request config hash) := by
  unfold CanonicalRequest.build
  dsimp only
  split
  · exact avoids_error (hcanonical _)
  · refine .bind (.mapM fun header _ => ?_) fun _ => avoids_ok _
    refine .bind ?_ fun _ => avoids_ok _
    unfold Canonical.canonicalValue
    split
    · exact avoids_error (hcanonical _)
    · exact avoids_ok _

/-- The last step of signing canonicalises once or twice and fails for no other reason. -/
theorem finish_avoids (attempt : Attempt σ) (config : Config) (hash : Bytes)
    (hcanonical : ∀ fault, .canonicalization fault ≠ failure) :
    Avoids failure (attempt.finish config hash) := by
  unfold Attempt.finish
  split
  · refine .bind ?_ fun _ => (build_avoids _ _ _ hcanonical).bind fun _ => avoids_ok _
    exact (build_avoids _ _ _ hcanonical).bind fun _ => avoids_ok _
  · exact (build_avoids _ _ _ hcanonical).bind fun _ => avoids_ok _

/-- The choice of the payload hash fails only where it was made by the configuration and contradicts the
trailers. -/
theorem resolveHash_avoids (request : Request σ) (config : Config)
    (hconfiguration : ∀ fault, .configuration fault ≠ failure) :
    Avoids failure (resolveHash request config) := by
  unfold resolveHash
  split
  · split
    · exact avoids_error (hconfiguration _)
    · exact avoids_ok _
  · exact avoids_ok _

/-- Announcing an encoding fails only where its length cannot be computed. -/
theorem addChunkHeaders_avoids (request : Request σ) (signed : Bool) (chunkSize : UInt64)
    (hconfiguration : ∀ fault, .configuration fault ≠ failure) :
    Avoids failure (addChunkHeaders request signed chunkSize) := by
  refine .bind ?_ fun _ => avoids_ok _
  unfold addLength
  split
  · refine .bind ?_ fun _ => avoids_ok _
    unfold Chunked.encodedLength?
    split
    · exact avoids_error (hconfiguration _)
    · exact avoids_ok _
  · exact avoids_ok _

/-- Why a request cannot be prepared: the configuration, the body and the credentials. A hypothesis for each
of these, so that the lemma serves for any failure that is none of them. -/
theorem prepare_avoids (hconfiguration : ∀ fault, .configuration fault ≠ failure)
    (hempty : .unsignableBody .nothingToEncode ≠ failure)
    (hread : (unwrapBody request).body.consumed shared = true → .unsignableBody .alreadyRead ≠ failure)
    (hexpired : ∀ credentials, identity = .credentials credentials →
      Avoids failure (checkExpiration credentials (config.signingDate.getD clock.now))) :
    Avoids failure (prepare clock config identity request shared) := by
  unfold prepare
  refine (validate_avoids config hconfiguration).bind fun _ => ?_
  cases identity with
  | other => exact avoids_error (hconfiguration _)
  | credentials credentials =>
    simp only [identityCredentials]
    split
    · exact avoids_error (hconfiguration _)
    · -- Chunks are announced in one of the two branches at the end.
      have hannounce (hash : PayloadHash) :
          Avoids failure (announceChunks (unwrapBody request) hash config) := by
        unfold announceChunks
        refine .throwIf (.throwIf ?_ (fun _ => hempty) _) (fun _ => hconfiguration _) _
        exact addChunkHeaders_avoids _ _ _ hconfiguration
      show Avoids failure (if (unwrapBody request).body.consumed shared = true then _ else _)
      refine .throwIf ((hexpired credentials rfl).bind fun _ => ?_) hread _
      refine (resolveHash_avoids _ _ hconfiguration).bind fun hash => ?_
      split
      · exact (hannounce hash).bind fun _ => avoids_ok _
      · exact avoids_ok _

/-- Hashing a one-shot payload fails because it would have to read it, which is another failure than that it
was read. -/
theorem hashPayload_avoids [ByteSource σ] {body : Body σ} (hreplayable : body.replayable = false)
    (hash : PayloadHash) (shared : Shared) :
    Avoids (.unsignableBody .alreadyRead) (hashPayload body hash shared).1 := by
  unfold hashPayload
  split
  · split
    · exact avoids_ok _
    · exact avoids_ok _
    · rw [hashStream, hreplayable]
      exact avoids_error (by simp)
  · exact avoids_ok _

/-- Signing fails where one of its steps does, with the same failure. So a failure that none of the steps
has is not one of signing, and each step is looked at on its own. -/
theorem sign_avoids [ByteSource σ] (hcanonical : ∀ fault, .canonicalization fault ≠ failure)
    (hprepare : Avoids failure (prepare clock config identity request shared))
    (hhash : ∀ attempt, prepare clock config identity request shared = .ok attempt →
      Avoids failure (hashPayload attempt.request.body attempt.hash shared).1) :
    Avoids failure (sign clock config identity request shared).1 := by
  unfold sign
  -- The steps are taken one after the other, and each may fail in its own way.
  split
  next other heq =>
    rw [heq] at hprepare
    exact hprepare.cast
  next attempt heq =>
    have hhash := hhash attempt heq
    split
    next other _ hfailed =>
      rw [hfailed] at hhash
      exact hhash.cast
    next text _ _ =>
      have hfinish := finish_avoids attempt config text hcanonical
      split
      next other hfailed =>
        rw [hfailed] at hfinish
        exact hfinish.cast
      next signed _ =>
        split
        · exact avoids_ok _
        · exact avoids_ok _

/-- **Signing refuses a one-shot payload as read just if its own stream is marked.** With the mark the
preparation ends there; without it all other steps have failures of their own. -/
theorem sign_eq_alreadyRead_iff [ByteSource σ] (hvalid : config.validate = .ok ())
    {credentials : Credentials} (hcredentials : identityCredentials identity = .ok credentials)
    (hreplayable : (unwrapBody request).body.replayable = false) :
    (sign clock config identity request shared).1 = .error (.unsignableBody .alreadyRead)
      ↔ (unwrapBody request).body.consumed shared = true := by
  cases hread : (unwrapBody request).body.consumed shared with
  | true =>
    -- Nothing before this check can fail, by the assumptions.
    have hprepare : prepare clock config identity request shared
        = .error (.unsignableBody .alreadyRead) := by
      unfold prepare
      rw [hvalid, hcredentials]
      show (if (unwrapBody request).body.consumed shared then _ else _) = _
      rw [if_pos hread]
      rfl
    rw [sign, hprepare]
    exact iff_of_true rfl rfl
  | false =>
    refine iff_of_false ?_ Bool.false_ne_true
    refine sign_avoids (by simp) (prepare_avoids ?_ ?_ ?_ ?_) fun attempt heq => ?_
    · simp
    · simp
    · simp [hread]
    · intro credentials _
      unfold checkExpiration
      split
      · exact avoids_error (by simp)
      · exact avoids_ok _
    · exact hashPayload_avoids
        ((congrArg Body.replayable (prepare_ok heq).body_eq).trans hreplayable) attempt.hash shared

end Signer

end SigV4
