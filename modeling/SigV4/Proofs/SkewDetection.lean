import SigV4.Proofs.AcceptedDates
import SigV4.Proofs.SkewCorrection

/-!
# When the offset of a clock changes

The offset is shared by all requests of a client, and any response may come back to any of them. What
`detect` makes of a request and a response is told by `Detected`, whatever state it starts from:

* **`ClockSkew.Detected.detect`** and **`ClockSkew.detect_cases`**: a correction is reported exactly if
  both dates are there and can be read, and the service or the difference says so. It is the whole
  difference, since dates are in whole seconds. Instants have no bounds here, so none are asked for.
* **`ClockSkew.Call.apply_cases`**: one call, which brings an offset or changes nothing.
* **`ClockSkew.offset_is_last_brought`**: the run. The offset is the one that was brought last.
-/

namespace SigV4

namespace ClockSkew

variable {σ : Type} {request : Request σ} {response : Response} {client server : Instant}
  {offset : Int} {date requestDate responseDate : Bytes}

/-! ## One exchange -/

/-- A request is dated by its first date header, and by its query if it has no such header. -/
inductive RequestDate (request : Request σ) (date : Bytes) : Prop where
  | header (h : request.headers.First (ascii "x-amz-date") date)
  | query (hlacks : request.headers.Lacks (ascii "x-amz-date"))
      (h : request.queries.First (ascii "X-Amz-Date") date)

/-- The service refused the request for its date. -/
def Reported (response : Response) : Prop :=
  response.errorCode = some (ascii "RequestTimeTooSkewed")
    ∨ response.errorCode = some (ascii "RequestExpired")
    ∨ response.errorCode = some (ascii "RequestInTheFuture")

/-- One of the clocks is 240 seconds ahead, or more. -/
def Apart (client server : Instant) : Prop :=
  client.nanoseconds + 240000000000 ≤ server.nanoseconds
    ∨ server.nanoseconds + 240000000000 ≤ client.nanoseconds

/-- The request and the response have these dates, which tell the offset, in milliseconds. -/
structure Detected (request : Request σ) (response : Response) (client server : Instant)
    (offset : Int) : Prop where
  requested : ∃ date, RequestDate request date ∧ Timestamp.parseAmzDate date = .ok client
  answered : ∃ date, response.headers.First (ascii "Date") date
    ∧ Timestamp.parseHttpDate date = .ok server
  skewed : Reported response ∨ Apart client server
  exact : offset * 1000000 = server.nanoseconds - client.nanoseconds

/-- The request and the response tell this offset, whatever their dates are. -/
def Detects (request : Request σ) (response : Response) (offset : Int) : Prop :=
  ∃ client server, Detected request response client server offset

/-- A request is dated in its header, or in a parameter if the header is not there. -/
theorem signingDate_eq_some_iff : signingDate request = some date ↔ RequestDate request date := by
  rw [signingDate]
  -- The header is looked up first, so the query counts only if there is none.
  cases hheader : request.headers.get? (ascii "x-amz-date") with
  | none =>
    have hlacks := Fields.get?_eq_none_iff.mp hheader
    show request.queries.get? (ascii "X-Amz-Date") = some date ↔ _
    rw [Fields.get?_eq_some_iff]
    constructor
    · exact fun h => .query hlacks h
    · rintro (h | ⟨-, h⟩)
      · rw [Fields.get?_eq_some_iff.mpr h] at hheader
        contradiction
      · exact h
  | some found =>
    show some found = some date ↔ _
    rw [← hheader, Fields.get?_eq_some_iff]
    constructor
    · exact fun h => .header h
    · rintro (h | ⟨hlacks, -⟩)
      · exact h
      · rw [Fields.get?_eq_none_iff.mpr hlacks] at hheader
        contradiction

/-- The dates are read if and only if each of them is. -/
theorem parseDates_eq_ok_iff : parseDates requestDate responseDate = .ok (client, server)
    ↔ Timestamp.parseAmzDate requestDate = .ok client
      ∧ Timestamp.parseHttpDate responseDate = .ok server := by
  rw [parseDates]
  cases Timestamp.parseAmzDate requestDate with
  | error failure => simp [Bind.bind, Except.bind]
  | ok t =>
    cases Timestamp.parseHttpDate responseDate with
    | error failure => simp [Bind.bind, Except.bind]
    | ok t' => simp [Bind.bind, Except.bind, Pure.pure, Except.pure]

/-- Nothing but invalid input comes to be caught. -/
theorem invalidInput_of_parseDates {failure : Failure}
    (h : parseDates requestDate responseDate = .error failure) :
    ∃ fault, failure = .invalidInput fault := by
  rw [parseDates] at h
  cases hclient : Timestamp.parseAmzDate requestDate with
  | error found =>
    rw [hclient] at h
    obtain rfl := Except.error.inj h
    exact Timestamp.Form.basic.invalidInput_of_read hclient
  | ok t =>
    rw [hclient] at h
    cases hserver : Timestamp.parseHttpDate responseDate with
    | error found =>
      rw [hserver] at h
      obtain rfl := Except.error.inj h
      exact Timestamp.Form.http.invalidInput_of_read hserver
    | ok t' =>
      rw [hserver] at h
      contradiction

/-- The threshold is four minutes in either direction. -/
theorem isSkewed_iff : isSkewed client server = true ↔ Apart client server := by
  rw [isSkewed, decide_eq_true_iff, threshold, Apart]
  omega

/-- The response reports a skew by one of the codes. -/
theorem errorCode_isSkewError_iff :
    response.errorCode.any isSkewError = true ↔ Reported response := by
  rw [Reported]
  cases response.errorCode with
  | none => simp
  | some code => simp [isSkewError]

/-- The difference of dates that were read is one of whole milliseconds. -/
theorem correction_exact (hclient : Timestamp.parseAmzDate requestDate = .ok client)
    (hserver : Timestamp.parseHttpDate responseDate = .ok server) :
    correction client server * 1000000 = server.nanoseconds - client.nanoseconds := by
  obtain ⟨k, rfl⟩ := Timestamp.exists_parseAmzDate_eq hclient
  obtain ⟨l, rfl⟩ := Timestamp.exists_parseHttpDate_eq hserver
  rw [correction_ofSeconds]
  show (l - k) * 1000000000 = l * 1000000000 - k * 1000000000
  omega

/-- **An offset that is told is reported and stored.** It does not matter what was stored before: the dates
of the exchange determine the offset, and it replaces the other. -/
theorem Detected.detect (h : Detected request response client server offset) (skew : ClockSkew) :
    skew.detect request response
      = (some offset, { skew with offset }, if skew.log then correctedNote offset else []) := by
  obtain ⟨requestDate, hrequest, hclient⟩ := h.requested
  obtain ⟨responseDate, hresponse, hserver⟩ := h.answered
  -- The offset is known in nanoseconds, and dividing by a million is exact.
  have hoffset : correction client server = offset := by
    have hexact := correction_exact hclient hserver
    rw [← h.exact] at hexact
    omega
  have hskewed : (response.errorCode.any isSkewError || isSkewed client server) = true := by
    rw [Bool.or_eq_true, errorCode_isSkewError_iff, isSkewed_iff]
    exact h.skewed
  rw [ClockSkew.detect, signingDate_eq_some_iff.mpr hrequest, Fields.get?_eq_some_iff.mpr hresponse]
  dsimp only
  rw [parseDates_eq_ok_iff.mpr ⟨hclient, hserver⟩]
  dsimp only
  rw [if_pos hskewed, hoffset]

/-- **Nothing else is reported or stored**: an offset was told, or the state stays as it was. There is one
case for each way in which an exchange tells nothing: a date that is missing or cannot be read, and dates
that are near each other. -/
theorem detect_cases (skew : ClockSkew) (request : Request σ) (response : Response) :
    (∃ offset, Detects request response offset
      ∧ (skew.detect request response).1 = some offset)
    ∨ (skew.detect request response).1 = none ∧ (skew.detect request response).2.1 = skew := by
  -- Only the innermost branch stores anything. In each of the others a date is missing, cannot be read or
  -- is near enough.
  rw [ClockSkew.detect]
  split
  next requestDate responseDate hrequest hresponse =>
    split
    next => exact .inr ⟨rfl, rfl⟩
    next client server hdates =>
      obtain ⟨hclient, hserver⟩ := parseDates_eq_ok_iff.mp hdates
      split
      next hskewed =>
        rw [Bool.or_eq_true, errorCode_isSkewError_iff, isSkewed_iff] at hskewed
        refine .inl ⟨correction client server, ⟨client, server, ?_⟩, rfl⟩
        exact {
          requested := ⟨requestDate, signingDate_eq_some_iff.mp hrequest, hclient⟩
          answered := ⟨responseDate, Fields.get?_eq_some_iff.mp hresponse, hserver⟩
          skewed := hskewed
          exact := correction_exact hclient hserver }
      next => exact .inr ⟨rfl, rfl⟩
  next => exact .inr ⟨rfl, rfl⟩

/-- **An offset is reported if and only if the exchange tells it.** The state is not asked. -/
theorem detect_eq_some_iff (skew : ClockSkew) :
    (skew.detect request response).1 = some offset ↔ Detects request response offset := by
  constructor
  · intro h
    rcases detect_cases skew request response with ⟨told, hdetects, hsome⟩ | ⟨hnone, -⟩
    · rw [hsome] at h
      rwa [← Option.some.inj h]
    · rw [hnone] at h
      contradiction
  · rintro ⟨client, server, h⟩
    rw [h.detect]

/-- What is not reported is not stored. -/
theorem detect_snd (skew : ClockSkew) (request : Request σ) (response : Response) :
    (skew.detect request response).2.1
      = { skew with offset := (skew.detect request response).1.getD skew.offset } := by
  rcases detect_cases skew request response with ⟨offset, ⟨client, server, h⟩, -⟩ | ⟨hnone, hsame⟩
  · rw [h.detect]
    rfl
  · rw [hnone, hsame]
    rfl

/-! ## Any calls

The calls come in any order. Each of them brings an offset or changes nothing, and which of the two
does not depend on the state. -/

/-- A call that may change the offset. -/
inductive Call (σ : Type) where
  | detect (request : Request σ) (response : Response)
  | setOffset (milliseconds : Int)
  | reset

namespace Call

/-- The state that a call leaves. -/
def apply (skew : ClockSkew) : Call σ → ClockSkew
  | detect request response => (skew.detect request response).2.1
  | setOffset milliseconds => skew.setOffset milliseconds
  | reset => skew.reset

/-- The offset that a call brings, if it brings one. -/
inductive Brings : Call σ → Int → Prop where
  | detect {request : Request σ} {response : Response} {offset : Int}
      (h : Detects request response offset) : Brings (.detect request response) offset
  | setOffset (milliseconds : Int) : Brings (.setOffset milliseconds) milliseconds
  | reset : Brings .reset 0

/-- **A call stores the offset that it brings, or changes nothing.** This is the step; what a sequence of
calls comes to follows from it by induction. -/
theorem apply_cases (skew : ClockSkew) (call : Call σ) :
    (∃ offset, call.Brings offset ∧ call.apply skew = { skew with offset })
      ∨ (∀ offset, ¬ call.Brings offset) ∧ call.apply skew = skew := by
  cases call with
  | setOffset milliseconds => exact .inl ⟨milliseconds, .setOffset milliseconds, rfl⟩
  | reset => exact .inl ⟨0, .reset, rfl⟩
  | detect request response =>
    rcases detect_cases skew request response with ⟨offset, hdetects, hsome⟩ | ⟨hnone, hsame⟩
    · refine .inl ⟨offset, .detect hdetects, ?_⟩
      show (skew.detect request response).2.1 = _
      rw [detect_snd, hsome]
      rfl
    · refine .inr ⟨?_, hsame⟩
      rintro offset ⟨hdetects⟩
      rw [(detect_eq_some_iff skew).mpr hdetects] at hnone
      contradiction

/-- A call brings one offset at most. -/
theorem Brings.unique {call : Call σ} {offset other : Int} (h : call.Brings offset)
    (h' : call.Brings other) : offset = other := by
  cases h with
  | setOffset milliseconds =>
    cases h'
    rfl
  | reset =>
    cases h'
    rfl
  | detect hdetects =>
    cases h' with
    | detect hother =>
      -- What is reported is the same from any state, so also from this one.
      have hsome := (detect_eq_some_iff {}).mpr hdetects
      rw [(detect_eq_some_iff {}).mpr hother] at hsome
      exact (Option.some.inj hsome).symm

/-- A call that brings an offset stores it. -/
theorem Brings.apply {call : Call σ} {offset : Int} (h : call.Brings offset) (skew : ClockSkew) :
    call.apply skew = { skew with offset } := by
  rcases call.apply_cases skew with ⟨other, hother, happly⟩ | ⟨hnothing, -⟩
  · rw [happly, hother.unique h]
  · exact absurd h (hnothing offset)

end Call

/-- The state after these calls. -/
def after (skew : ClockSkew) (calls : List (Call σ)) : ClockSkew := calls.foldl Call.apply skew

theorem after_append (skew : ClockSkew) (calls more : List (Call σ)) :
    skew.after (calls ++ more) = (skew.after calls).after more := List.foldl_append

/-- Calls that bring no offset change nothing. -/
theorem after_of_nothing {calls : List (Call σ)} (h : ∀ call ∈ calls, ∀ offset, ¬ call.Brings offset)
    (skew : ClockSkew) : skew.after calls = skew := by
  induction calls with
  | nil => rfl
  | cons call calls ih =>
    obtain ⟨hcall, hcalls⟩ := List.forall_mem_cons.mp h
    show (call.apply skew).after calls = skew
    rcases call.apply_cases skew with ⟨offset, hbrings, -⟩ | ⟨-, happly⟩
    · exact absurd hbrings (hcall offset)
    · rw [happly]
      exact ih hcalls

/-- The last of these calls that brings an offset brings this one; it is `initial` if none does. -/
inductive LastBrought (initial : Int) : List (Call σ) → Int → Prop where
  | initial {calls : List (Call σ)} (h : ∀ call ∈ calls, ∀ offset, ¬ call.Brings offset) :
      LastBrought initial calls initial
  | brought {before behind : List (Call σ)} {call : Call σ} {offset : Int} (h : call.Brings offset)
      (hbehind : ∀ later ∈ behind, ∀ other, ¬ later.Brings other) :
      LastBrought initial (before ++ call :: behind) offset

namespace LastBrought

variable {initial last : Int} {call : Call σ} {calls : List (Call σ)}

/-- A call in front makes a difference only if no later one brings an offset. -/
theorem cons (hbrings : call.Brings offset) (h : LastBrought offset calls last) :
    LastBrought initial (call :: calls) last := by
  cases h with
  | initial h =>
    show LastBrought initial ([] ++ call :: calls) offset
    exact .brought hbrings h
  | @brought before behind later last h hbehind =>
    show LastBrought initial ((call :: before) ++ later :: behind) last
    exact .brought h hbehind

/-- A call in front that brings nothing makes no difference at all. -/
theorem cons_of_nothing (hnothing : ∀ offset, ¬ call.Brings offset)
    (h : LastBrought initial calls last) : LastBrought initial (call :: calls) last := by
  cases h with
  | initial h => exact .initial (List.forall_mem_cons.mpr ⟨hnothing, h⟩)
  | @brought before behind later last h hbehind =>
    show LastBrought initial ((call :: before) ++ later :: behind) last
    exact .brought h hbehind

end LastBrought

/-- What is in force after some calls was brought last by them. The induction goes along the calls, and the
first of them decides what the rest starts from. -/
theorem lastBrought_after (skew : ClockSkew) (calls : List (Call σ)) :
    LastBrought skew.offset calls (skew.after calls).offset := by
  induction calls generalizing skew with
  | nil => exact .initial (by simp)
  | cons call calls ih =>
    have hlast := ih (call.apply skew)
    show LastBrought skew.offset (call :: calls) ((call.apply skew).after calls).offset
    rcases call.apply_cases skew with ⟨offset, hbrings, happly⟩ | ⟨hnothing, happly⟩
    · rw [happly] at hlast ⊢
      exact .cons hbrings hlast
    · rw [happly] at hlast ⊢
      exact .cons_of_nothing hnothing hlast

/-- No other offset is the one brought last. -/
theorem lastBrought_iff (skew : ClockSkew) (calls : List (Call σ)) :
    LastBrought skew.offset calls offset ↔ offset = (skew.after calls).offset := by
  constructor
  · intro h
    cases h with
    | initial h => rw [after_of_nothing h]
    | @brought before behind call offset h hbehind =>
      rw [after_append]
      show offset = (((call.apply (skew.after before)).after behind).offset)
      rw [h.apply, after_of_nothing hbehind]
  · rintro rfl
    exact lastBrought_after skew calls

/-- Whether corrections are logged stays as it is. -/
theorem log_after (skew : ClockSkew) (calls : List (Call σ)) : (skew.after calls).log = skew.log := by
  induction calls generalizing skew with
  | nil => rfl
  | cons call calls ih =>
    show ((call.apply skew).after calls).log = skew.log
    rw [ih]
    rcases call.apply_cases skew with ⟨offset, -, happly⟩ | ⟨-, happly⟩
    · rw [happly]
    · rw [happly]

/-- What a corrector is like that has reached this state by these calls. -/
structure Learns (skew : ClockSkew) (calls : List (Call σ)) (reached : ClockSkew) : Prop where
  /-- Its offset is the one that was brought last. -/
  last : ∀ offset, LastBrought skew.offset calls offset ↔ offset = reached.offset
  log : reached.log = skew.log
  /-- It reports an offset exactly if the exchange tells that one, whatever was learnt before. -/
  reports : ∀ (request : Request σ) (response : Response) (offset : Int),
    (reached.detect request response).1 = some offset ↔ Detects request response offset
  /-- It stores what it reports, and nothing else. -/
  stores : ∀ (request : Request σ) (response : Response), (reached.detect request response).2.1
    = { reached with offset := (reached.detect request response).1.getD reached.offset }
  /-- No failure on the way is of another kind than the one that is caught. -/
  caught : ∀ (requestDate responseDate : Bytes) (failure : Failure),
    parseDates requestDate responseDate = .error failure → ∃ fault, failure = .invalidInput fault

/-- **The offset is always the one that was brought last**, by an exchange that tells one, by setting
it or by taking it back. -/
theorem offset_is_last_brought (skew : ClockSkew) (calls : List (Call σ)) :
    Learns skew calls (skew.after calls) where
  last _ := lastBrought_iff skew calls
  log := log_after skew calls
  reports _ _ _ := detect_eq_some_iff (skew.after calls)
  stores := detect_snd (skew.after calls)
  caught _ _ _ := invalidInput_of_parseDates

/-- Four minutes are enough also where the server's clock is behind. -/
example :
    let request : Request MemorySource :=
      { headers := .ofList .caseInsensitive [(ascii "X-AMZ-DATE", ascii "20201016T200000Z")] }
    let response : Response :=
      { headers := .ofList .caseInsensitive [(ascii "date", ascii "Fri, 16 Oct 2020 19:56:00 GMT")] }
    (({ offset := 60000 } : ClockSkew).detect request response).1 = some (-240000) := by
  decide +kernel

end ClockSkew

end SigV4
