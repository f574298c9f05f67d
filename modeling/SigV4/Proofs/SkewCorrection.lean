import SigV4.Proofs.WrittenDates
import SigV4.Proofs.Verification

/-!
# What a correction of the clock comes to

A request is dated by the corrected clock and its response by the server's. The difference of the
two dates is stored as the next offset, and an offset is added to the clock that is not corrected:

* **`Signer.detect_signed`**: what `detect` compares is the time that was shown at the signing, with
  the offset in force.
* **`ClockSkew.now_correctTo`**: so the corrected clock is off by what that offset had moved it, and
  **`ClockSkew.now_correctTo_iterate`**: corrections for one server time lead forth and back.
* **`Signer.detect_closes_iff`**: a correction hits the server's time if and only if the offset in
  force had left the second that is shown as it was, and then the next exchange reports nothing.
-/

namespace SigV4

/-! ## Whole seconds

Dates are written in seconds, so what is compared are whole seconds. The time of the client has a
fraction besides. -/

namespace Instant

theorem seconds_ofSeconds (k : Int) : (ofSeconds k).seconds = k :=
  Int.mul_tdiv_cancel k (by decide)

theorem truncateToSeconds_ofSeconds (k : Int) : (ofSeconds k).truncateToSeconds = ofSeconds k := by
  rw [truncateToSeconds, seconds_ofSeconds]

/-- Instants of whole seconds are told apart by their seconds. -/
theorem ofSeconds_inj {k l : Int} : ofSeconds k = ofSeconds l ↔ k = l :=
  ⟨fun h => by simpa only [seconds_ofSeconds] using congrArg seconds h, congrArg ofSeconds⟩

/-- Seconds are cut off toward 1970 on both sides of it. -/
theorem seconds_spec (t : Instant) :
    (0 ≤ t.nanoseconds → t.seconds * 1000000000 ≤ t.nanoseconds
      ∧ t.nanoseconds < t.seconds * 1000000000 + 1000000000)
    ∧ (t.nanoseconds ≤ 0 → t.seconds * 1000000000 - 1000000000 < t.nanoseconds
      ∧ t.nanoseconds ≤ t.seconds * 1000000000) := by
  have hcut {n : Int} (hn : 0 ≤ n) : n.tdiv 1000000000 * 1000000000 ≤ n
      ∧ n < n.tdiv 1000000000 * 1000000000 + 1000000000 := by
    rw [Int.tdiv_eq_ediv_of_nonneg hn]
    omega
  -- Before 1970 the same is used of the opposite number.
  refine ⟨hcut, fun hneg => ?_⟩
  have hopposite := hcut (n := -t.nanoseconds) (by omega)
  rw [Int.neg_tdiv] at hopposite
  show t.nanoseconds.tdiv 1000000000 * 1000000000 - 1000000000 < _
    ∧ _ ≤ t.nanoseconds.tdiv 1000000000 * 1000000000
  omega

end Instant

/-- The clock shows whole seconds. -/
theorem Clock.exists_now_eq (clock : Clock) : ∃ k, clock.now = .ofSeconds k := ⟨_, rfl⟩

/-- What the clock shows has nothing to be cut off. -/
theorem Clock.truncateToSeconds_now (clock : Clock) : clock.now.truncateToSeconds = clock.now :=
  Instant.truncateToSeconds_ofSeconds _

namespace Timestamp

variable {date : Bytes} {time : Instant}

/-- Fields that were read make an instant of whole seconds. -/
theorem exists_orInvalid_eq {fields : Option CivilTime} (h : orInvalid date fields = .ok time) :
    ∃ k, time = .ofSeconds k := by
  cases fields with
  | none => exact absurd h (by simp [orInvalid])
  | some civil => exact ⟨_, (Except.ok.inj h).symm⟩

/-- A request is dated in whole seconds. -/
theorem exists_parseAmzDate_eq (h : parseAmzDate date = .ok time) : ∃ k, time = .ofSeconds k := by
  unfold parseAmzDate at h
  split at h
  · exact exists_orInvalid_eq h
  · exact absurd h (by simp)

/-- A response is dated in whole seconds. -/
theorem exists_parseHttpDate_eq (h : parseHttpDate date = .ok time) : ∃ k, time = .ofSeconds k := by
  unfold parseHttpDate at h
  split at h
  · split at h
    · exact absurd h (by simp)
    · exact exists_orInvalid_eq h
  · exact absurd h (by simp)

end Timestamp

/-! ## Corrections

The offset that is stored is measured on the corrected clock, and it is added to the plain one. -/

namespace ClockSkew

variable {time server : Instant}

/-- The skew that is stored once a request that was signed with `skew` in force is answered. -/
def correctTo (time server : Instant) (skew : ClockSkew) : ClockSkew :=
  { skew with offset := correction (Clock.now ⟨time, some skew⟩) server }

/-- Between whole seconds the correction is exact: no part of a millisecond is cut off. -/
theorem correction_ofSeconds (client server : Int) :
    correction (.ofSeconds client) (.ofSeconds server) * 1000000 = (server - client) * 1000000000 := by
  have hwhole : server * 1000000000 - client * 1000000000 = (server - client) * 1000 * 1000000 := by
    omega
  show (server * 1000000000 - client * 1000000000).tdiv 1000000 * 1000000 = _
  rw [hwhole, Int.mul_tdiv_cancel _ (by decide)]
  omega

/-- The corrected clock shows the plain time with the server's lead over the time that was shown. -/
theorem now_correctTo_eq (time : Instant) {shown server : Int} {skew : ClockSkew}
    (hshown : Clock.now ⟨time, some skew⟩ = .ofSeconds shown) :
    Clock.now ⟨time, some (correctTo time (.ofSeconds server) skew)⟩
      = Instant.truncateToSeconds ⟨time.nanoseconds + (server - shown) * 1000000000⟩ := by
  rw [← correction_ofSeconds, ← hshown]
  rfl

/-- A clock that is not corrected shows the second that the time is in. -/
theorem plain_of_now {plain : Int} (htime : 0 ≤ time.nanoseconds)
    (hplain : Clock.now ⟨time, none⟩ = .ofSeconds plain) :
    plain * 1000000000 ≤ time.nanoseconds
      ∧ time.nanoseconds < plain * 1000000000 + 1000000000 := by
  have hseconds : time.seconds = plain := by
    have h : Instant.ofSeconds (Instant.seconds ⟨time.nanoseconds + 0 * 1000000⟩)
      = .ofSeconds plain := hplain
    rwa [Instant.ofSeconds_inj, Int.zero_mul, Int.add_zero] at h
  rw [← hseconds]
  exact (Instant.seconds_spec time).1 htime

/-- **A correction misses the server's time by what the offset in force had moved the clock**, as
long as it does not lead to a time before 1970. -/
theorem now_correctTo {plain shown server : Int} {skew : ClockSkew} (htime : 0 ≤ time.nanoseconds)
    (hplain : Clock.now ⟨time, none⟩ = .ofSeconds plain)
    (hshown : Clock.now ⟨time, some skew⟩ = .ofSeconds shown)
    (hcorrected : 0 ≤ time.nanoseconds + (server - shown) * 1000000000) :
    Clock.now ⟨time, some (correctTo time (.ofSeconds server) skew)⟩
      = .ofSeconds (server - (shown - plain)) := by
  have hplain' := plain_of_now htime hplain
  have hnow := (Instant.seconds_spec ⟨time.nanoseconds + (server - shown) * 1000000000⟩).1 hcorrected
  rw [now_correctTo_eq time hshown, Instant.truncateToSeconds, Instant.ofSeconds_inj]
  dsimp only at hnow
  omega

/-- The correction that follows takes the first one back, and so on. The offset that is stored is measured
on a clock that has the one before, and replaces it, so the clock shows two times in turns. -/
theorem now_correctTo_iterate {plain shown server : Int} {skew : ClockSkew}
    (htime : 0 ≤ time.nanoseconds) (hplain : Clock.now ⟨time, none⟩ = .ofSeconds plain)
    (hshown : Clock.now ⟨time, some skew⟩ = .ofSeconds shown) (hnonneg : 0 ≤ shown)
    (hcorrected : 0 ≤ time.nanoseconds + (server - shown) * 1000000000) (n : Nat) :
    Clock.now ⟨time, some ((correctTo time (.ofSeconds server))^[n] skew)⟩
      = .ofSeconds (if n % 2 = 0 then shown else server - (shown - plain)) := by
  have hplain' := plain_of_now htime hplain
  induction n with
  | zero => exact hshown
  | succ n ih =>
    -- After an even number of corrections the clock shows what it did at first, and the next one leads away
    -- again.
    rw [Function.iterate_succ_apply']
    split at ih
    next heven =>
      rw [now_correctTo htime hplain ih hcorrected, if_neg (by omega)]
    next hodd =>
      rw [now_correctTo htime hplain ih (by omega), if_pos (by omega)]
      congr 1
      omega

theorem isSkewed_self (t : Instant) : isSkewed t t = false := by
  rw [isSkewed, Int.sub_self]
  rfl

end ClockSkew

namespace Signer

open ClockSkew

variable {σ : Type} [ByteSource σ] {clock : Clock} {config : Config} {identity : Identity}
  {request : Request σ} {shared shared' : Shared} {signed : SignedRequest σ} {response : Response}
  {date : Bytes} {time server : Instant} {skew : ClockSkew}

/-! ## What is detected

The date in the request is the time that the clock showed when it was signed. -/

/-- A request that is not presigned is dated in a header. What `detect` reads there is the date that it was
signed with, since the header is set by signing and there is no other of its name. -/
theorem signingDate_signed (hsign : sign clock config identity request shared = (.ok signed, shared'))
    (hheader : config.presigned = false) :
    signingDate signed.request
      = some (Timestamp.amzDate (config.signingDate.getD clock.now)) := by
  obtain ⟨attempt, hash, hashed, finished, hprepared, -, hfinish, hsigned⟩ := sign_ok hsign
  obtain ⟨canonical, hverifies⟩ := Attempt.finish_ok hfinish
  have hcarried := hverifies.carried
  rw [Carries, if_neg (by simp [hheader]), hprepared.amzDate] at hcarried
  have hheaders : signed.request.headers = finished.request.headers := by
    split at hsigned
    · exact congrArg (fun result => result.1.request.headers) hsigned
    · exact congrArg (fun result => result.1.request.headers) hsigned
  have hname : KeyOrder.caseInsensitive.rank (ascii "x-amz-date")
      = KeyOrder.caseInsensitive.rank dateName := by decide
  rw [signingDate, hheaders, Fields.get?_eq_head?, Fields.values_eq_of_rank_eq hname, hcarried.date]
  rfl

/-- **What is compared is the time that was shown at the signing**, corrected as it was then. A time
whose year has not four digits is not compared. -/
theorem detect_signed (hsign : sign clock config identity request shared = (.ok signed, shared'))
    (hdate : config.signingDate = none) (hheader : config.presigned = false)
    (hresponse : response.headers.get? (ascii "Date") = some date)
    (hserver : Timestamp.parseHttpDate date = .ok server) (skew : ClockSkew) :
    skew.detect signed.request response =
      if 0 ≤ (CivilTime.ofInstant clock.now).year ∧ (CivilTime.ofInstant clock.now).year ≤ 9999 then
        if response.errorCode.any isSkewError || isSkewed clock.now server then
          let offset := correction clock.now server
          (some offset, { skew with offset }, if skew.log then correctedNote offset else [])
        else
          (none, skew, [])
      else
        (none, skew, if skew.log then
          unreadableNote (.invalidInput (.timestamp (Timestamp.amzDate clock.now))) else []) := by
  have hsigned := signingDate_signed hsign hheader
  rw [hdate] at hsigned
  have hparse := Timestamp.parseAmzDate_amzDate clock.now
  rw [Clock.truncateToSeconds_now] at hparse
  rw [detect, hsigned, hresponse]
  dsimp only [Option.getD_none]
  rw [parseDates, hparse, hserver]
  by_cases hyear : 0 ≤ (CivilTime.ofInstant clock.now).year
      ∧ (CivilTime.ofInstant clock.now).year ≤ 9999
  · rw [if_pos hyear, if_pos hyear]
    rfl
  · rw [if_neg hyear, if_neg hyear]
    rfl

/-- A reported correction is that of the time that was shown. -/
theorem corrected_of_detect (hsign : sign ⟨time, some skew⟩ config identity request shared
      = (.ok signed, shared'))
    (hdate : config.signingDate = none) (hheader : config.presigned = false)
    (hresponse : response.headers.get? (ascii "Date") = some date)
    (hserver : Timestamp.parseHttpDate date = .ok server) {offset : Int} {corrected : ClockSkew}
    {log : Bytes} (hdetect : skew.detect signed.request response = (some offset, corrected, log)) :
    corrected = skew.correctTo time server := by
  rw [detect_signed hsign hdate hheader hresponse hserver] at hdetect
  split at hdetect
  · split at hdetect
    · exact (Prod.ext_iff.mp (Prod.ext_iff.mp hdetect).2).1.symm
    · exact absurd (Prod.ext_iff.mp hdetect).1 (by simp)
  · exact absurd (Prod.ext_iff.mp hdetect).1 (by simp)

/-- A clock that shows about the server's time is left as it is. -/
theorem detect_eq_none (hsign : sign clock config identity request shared = (.ok signed, shared'))
    (hdate : config.signingDate = none) (hheader : config.presigned = false)
    (hresponse : response.headers.get? (ascii "Date") = some date)
    (hserver : Timestamp.parseHttpDate date = .ok server)
    (hcode : response.errorCode.any isSkewError = false) (hnear : isSkewed clock.now server = false)
    (skew : ClockSkew) :
    (skew.detect signed.request response).1 = none
      ∧ (skew.detect signed.request response).2.1 = skew := by
  rw [detect_signed hsign hdate hheader hresponse hserver, hcode, hnear]
  split
  · exact ⟨rfl, rfl⟩
  · exact ⟨rfl, rfl⟩

/-! ## Whether a correction closes the loop -/

/-- **A correction hits the server's time if and only if the offset in force had left the second that
is shown as it was**, or the server is at 1970 and the clock less than a second behind what it showed.
Otherwise it misses by what that offset had moved the clock. A clock that was hit is left as it is by
the next exchange. -/
theorem detect_closes_iff {offset : Int} {corrected : ClockSkew} {log : Bytes}
    (htime : 0 ≤ time.nanoseconds) (hpast : 0 ≤ server.nanoseconds)
    (hsign : sign ⟨time, some skew⟩ config identity request shared = (.ok signed, shared'))
    (hdate : config.signingDate = none) (hheader : config.presigned = false)
    (hresponse : response.headers.get? (ascii "Date") = some date)
    (hserver : Timestamp.parseHttpDate date = .ok server)
    (hdetect : skew.detect signed.request response = (some offset, corrected, log)) :
    let shown := Clock.now ⟨time, some skew⟩
    let next := Clock.now ⟨time, some corrected⟩
    (next = server ↔ shown = Clock.now ⟨time, none⟩ ∨ server.nanoseconds = 0
      ∧ time.nanoseconds < shown.nanoseconds ∧ shown.nanoseconds < time.nanoseconds + 1000000000)
    ∧ (shown.nanoseconds ≤ time.nanoseconds + server.nanoseconds →
      server.nanoseconds - next.nanoseconds
        = shown.nanoseconds - (Clock.now ⟨time, none⟩).nanoseconds)
    ∧ (next = server → ∀ (again : Request σ) (before after : Shared) (resigned : SignedRequest σ)
        (answer : Response),
      sign ⟨time, some corrected⟩ config identity again before = (.ok resigned, after) →
      answer.headers.get? (ascii "Date") = some date →
      answer.errorCode.any isSkewError = false →
      (corrected.detect resigned.request answer).1 = none
        ∧ (corrected.detect resigned.request answer).2.1 = corrected) := by
  obtain rfl := corrected_of_detect hsign hdate hheader hresponse hserver hdetect
  obtain ⟨plain, hplain⟩ := Clock.exists_now_eq ⟨time, none⟩
  obtain ⟨shown, hshown⟩ := Clock.exists_now_eq ⟨time, some skew⟩
  obtain ⟨s, rfl⟩ := Timestamp.exists_parseHttpDate_eq hserver
  have hplain' := plain_of_now htime hplain
  refine ⟨?_, ?_, ?_⟩
  · -- All the times are seconds now, but for the time of the client itself.
    rw [hshown, hplain, Instant.ofSeconds_inj]
    by_cases hcorrected : 0 ≤ time.nanoseconds + (s - shown) * 1000000000
    · rw [now_correctTo htime hplain hshown hcorrected, Instant.ofSeconds_inj]
      dsimp only [Instant.ofSeconds] at *
      omega
    · -- The correction leads to a time before 1970, which is cut off toward 1970.
      have hnow := (Instant.seconds_spec ⟨time.nanoseconds + (s - shown) * 1000000000⟩).2 (by
        dsimp only
        omega)
      rw [now_correctTo_eq time hshown, Instant.truncateToSeconds, Instant.ofSeconds_inj]
      dsimp only [Instant.ofSeconds] at *
      omega
  · intro hcorrected
    rw [hshown] at hcorrected ⊢
    rw [hplain]
    dsimp only [Instant.ofSeconds] at hcorrected
    rw [now_correctTo htime hplain hshown (by omega)]
    dsimp only [Instant.ofSeconds]
    omega
  · -- The next request is dated with the server's time, and no clock is skewed against itself.
    intro hhit again before after resigned answer hresign hanswer hcode
    refine detect_eq_none hresign hdate hheader hanswer hserver hcode ?_ _
    rw [hhit]
    exact isSkewed_self _

/-- Ten minutes are added to the clock when the server says that it is twenty minutes later. -/
def sampleSkew : ClockSkew where
  offset := 600000

/-- The time of the client, twenty minutes before that of the server. -/
def sampleTime : Instant := .ofSeconds 1602878160

/-- The time of the server as its response has it. -/
def sampleDate : Bytes := ascii "Fri, 16 Oct 2020 20:16:00 GMT"

/-- An answer that rejects the request and has the server's time. -/
def sampleAnswer : Response where
  status := .forbidden
  headers := Fields.ofList .caseInsensitive [(ascii "Date", sampleDate)]

theorem exists_signed_sample :
    ∃ signed shared', sign ⟨sampleTime, some sampleSkew⟩ sampleConfig (.credentials sampleCredentials)
      sampleRequest {} = (.ok signed, shared') :=
  exists_signed_of_isOk (by decide +kernel)

theorem sampleAnswer_date : sampleAnswer.headers.get? (ascii "Date") = some sampleDate := by
  decide +kernel

theorem parseHttpDate_sampleDate :
    Timestamp.parseHttpDate sampleDate = .ok (.ofSeconds 1602879360) := rfl

theorem detect_sample {signed : SignedRequest MemorySource} {shared' : Shared}
    (hsign : sign ⟨sampleTime, some sampleSkew⟩ sampleConfig (.credentials sampleCredentials)
      sampleRequest {} = (.ok signed, shared')) :
    sampleSkew.detect signed.request sampleAnswer = (some 600000, sampleSkew, []) := by
  rw [detect_signed hsign rfl rfl sampleAnswer_date parseHttpDate_sampleDate]
  decide +kernel

theorem detect_closes_iff_of_second_skew :
    ∃ signed shared', sign ⟨sampleTime, some sampleSkew⟩ sampleConfig (.credentials sampleCredentials)
        sampleRequest {} = (.ok signed, shared')
      ∧ (Clock.now ⟨sampleTime, some sampleSkew⟩ = .ofSeconds 1602879360
        ↔ Clock.now ⟨sampleTime, some sampleSkew⟩ = Clock.now ⟨sampleTime, none⟩
          ∨ (Instant.ofSeconds 1602879360).nanoseconds = 0
            ∧ sampleTime.nanoseconds < (Clock.now ⟨sampleTime, some sampleSkew⟩).nanoseconds
            ∧ (Clock.now ⟨sampleTime, some sampleSkew⟩).nanoseconds
              < sampleTime.nanoseconds + 1000000000) := by
  obtain ⟨signed, shared', hsign⟩ := exists_signed_sample
  have hcloses := detect_closes_iff (by decide) (by decide) hsign rfl rfl sampleAnswer_date
    parseHttpDate_sampleDate (detect_sample hsign)
  exact ⟨signed, shared', hsign, hcloses.1⟩

/-- The correction is the one that was in force, and it is not enough. -/
theorem corrected_clock_misses :
    ∃ signed shared', sign ⟨sampleTime, some sampleSkew⟩ sampleConfig (.credentials sampleCredentials)
        sampleRequest {} = (.ok signed, shared')
      ∧ Timestamp.parseHttpDate sampleDate = .ok (.ofSeconds 1602879360)
      ∧ sampleSkew.detect signed.request sampleAnswer = (some 600000, sampleSkew, [])
      ∧ Clock.now ⟨sampleTime, some sampleSkew⟩ ≠ .ofSeconds 1602879360 := by
  obtain ⟨signed, shared', hsign⟩ := exists_signed_sample
  exact ⟨signed, shared', hsign, parseHttpDate_sampleDate, detect_sample hsign, by decide⟩

end Signer
end SigV4
