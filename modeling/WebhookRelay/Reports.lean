import WebhookRelay.Connections
import WebhookRelay.Consistency

/-
  What a failed relay reports. The retry loop carries four variables from one
  attempt to the next, and each kind of failure assigns some of them: `Carried`
  is what they hold after any list of failures. The status is that of the last
  response, which need not be the last attempt.

  What is proved:
    1. `afterPost_failed`: what one failed attempt does to the variables;
    2. `reported_run`: what they hold at every position of a call;
    3. `report_final_iff`: when the outcome describes the fourth attempt.
-/
namespace WebhookRelay

open Py Transition

/-! ## Attempts -/

/-- The status code of an attempt that got a response. -/
def PostResult.status : PostResult → Option Int
  | .response statusCode => some statusCode
  | _ => none

/-- The reason and the error text of an attempt that failed. -/
def PostResult.failure? : PostResult → Option (String × String)
  | .response statusCode => some ("non_2xx", s!"non-2xx response: {statusCode}")
  | .timeoutException text => some ("timeout", textOr text "timeout")
  | .connectError text => some ("connection_error", textOr text "connection error")
  | .httpError text => some ("http_error", text)
  | .raised _ => none

def Input.answer? : Input → Option PostResult
  | .answered res => some res
  | _ => none

def Input.clock? : Input → Option Moment
  | .post now _ _ => some now
  | _ => none

/-- The results of the attempts of a call. -/
def answers (inputs : List Input) : List PostResult := inputs.filterMap Input.answer?

/-- The times at which they began. -/
def clocks (inputs : List Input) : List Moment := inputs.filterMap Input.clock?

/-- The outcome is about the attempt that began at `now` and ended with `res`. -/
structure RelayOutcome.Describes (out : RelayOutcome) (res : PostResult) (now : Moment) : Prop where
  statusCode : out.statusCode = res.status
  failure : ∃ reason text, res.failure? = some (reason, text) ∧ out.reason = some reason ∧
    out.lastError = some text ∧ text ≠ ""
  lastAttemptAt : out.lastAttemptAt = some (.ofUtc now)

/-! ## The loop -/

/-- What the variables of the loop hold after failures with these results, and
attempts begun at these times. -/
structure Carried (vars : LoopVars) (results : List PostResult) (times : List Moment) : Prop where
  lastStatus : vars.lastStatus = (results.filterMap PostResult.status).getLast?
  failure : ∀ res, results.getLast? = some res → res.failure? = some (vars.reason, vars.lastError.getD "") ∧
    vars.lastError.isSome = true
  lastAttemptAt : vars.lastAttemptAt = times.getLast?.map .ofUtc

/-- What a call that has not been answered with a 2xx has come to. -/
def Position.Reported (results : List PostResult) (times : List Moment) : Position → Prop
  | .start | .resolving => results = [] ∧ times = []
  | .attempt n vars => results.length + 1 = n ∧ times.length + 1 = n ∧ n ≤ maxAttempts ∧
      Carried vars results times
  | .inFlight n vars => results.length + 1 = n ∧ times.length = n ∧ n ≤ maxAttempts ∧
      Carried vars results times
  | .persist out => out.attempted = false ∨ ∃ vars, results.length = maxAttempts ∧ times.length = maxAttempts ∧
      Carried vars results times ∧ out.reason = some vars.reason ∧ out.statusCode = vars.lastStatus ∧
      out.lastError = vars.lastError ∧ out.lastAttemptAt = vars.lastAttemptAt
  | .returned | .raised _ => True

theorem carried_initial : Carried {} [] [] := by
  refine ⟨rfl, ?_, rfl⟩
  intro res hres
  cases hres

section

variable {vars : LoopVars} {results : List PostResult} {times : List Moment} {res : PostResult} {n : Nat}

/-- A failed attempt: only a response assigns the status. -/
theorem afterPost_failed {reason text : String} (hok : res.ok = false) (hf : res.failure? = some (reason, text)) :
    afterPost n vars res = afterFailure n {
      lastStatus := res.status.or vars.lastStatus
      lastError := some text
      reason := reason
      lastAttemptAt := vars.lastAttemptAt } := by
  cases res with
  | response statusCode =>
    cases hf
    have hbad : ¬ (200 ≤ statusCode ∧ statusCode < 300) := by simpa [PostResult.ok] using hok
    rw [afterPost, if_neg hbad]
    rfl
  | timeoutException _ | connectError _ | httpError _ =>
    cases hf
    rfl
  | raised _ => cases hf

/-- The variables after one more failure. -/
theorem Carried.failed {reason text : String} (h : Carried vars results times)
    (hf : res.failure? = some (reason, text)) :
    Carried {
      lastStatus := res.status.or vars.lastStatus
      lastError := some text
      reason := reason
      lastAttemptAt := vars.lastAttemptAt } (results ++ [res]) times := by
  refine ⟨?_, ?_, h.lastAttemptAt⟩
  · show res.status.or vars.lastStatus = _
    rw [readings_snoc, List.getLast?_append, h.lastStatus]
    cases res.status <;> rfl
  · intro res' hres'
    rw [List.getLast?_append, List.getLast?_singleton, Option.some_or, Option.some.injEq] at hres'
    subst hres'
    exact ⟨hf, rfl⟩

/-- An attempt that begins sets the time, and nothing else. -/
theorem Carried.began (h : Carried vars results times) (now : Moment) :
    Carried { vars with lastAttemptAt := some (.ofUtc now) } results (times ++ [now]) := by
  refine ⟨h.lastStatus, h.failure, ?_⟩
  rw [List.getLast?_append, List.getLast?_singleton]
  rfl

/-- After a failed pass the next attempt begins with the variables, or the
outcome reports them. -/
theorem afterFailure_reported (hn : results.length = n) (ht : times.length = n) (hle : n ≤ maxAttempts)
    (h : Carried vars results times) : (afterFailure n vars).Reported results times := by
  unfold afterFailure
  split
  · next hlt => exact ⟨by rw [hn], by rw [ht], hlt, h⟩
  · next hge =>
    have heq : n = maxAttempts := Nat.le_antisymm hle (Nat.not_lt.mp hge)
    exact .inr ⟨vars, hn.trans heq, ht.trans heq, h, rfl, rfl, rfl, rfl⟩

end

section

variable {env : Env} {client : Bool} {job : RelayJob} {pos pos' : Position} {input : Input} {eff : Effect}
  {inputs : List Input} {effs : List Effect}

theorem afterResolution_reported (env : Env) (client : Bool) (job : RelayJob) (ips : List String) :
    (afterResolution env client job ips).Reported [] [] := by
  rcases afterResolution_cases env client job ips with ⟨_, -, h⟩ | ⟨_, hs, h⟩ | ⟨-, _, h⟩ | ⟨-, h⟩ <;> rw [h]
  · trivial
  · obtain ⟨reason, -, rfl⟩ := screenIps_skips hs
    exact .inl rfl
  · trivial
  · exact ⟨rfl, rfl, by decide, carried_initial⟩

/-- Each turn of a call without a 2xx keeps the report. -/
theorem Turn.reported (ht : Turn env client job pos input pos' eff)
    (h : pos.Reported (answers inputs) (clocks inputs)) (hok : ∀ res, input = .answered res → res.ok = false) :
    pos'.Reported (answers (inputs ++ [input])) (clocks (inputs ++ [input])) := by
  rw [answers, clocks, readings_snoc, readings_snoc, ← answers, ← clocks]
  cases ht with
  | unparsed _ | unresolved | recorded => trivial
  | skipped hp =>
    obtain ⟨reason, -, rfl⟩ := preflightPolicy_skips hp
    exact .inl rfl
  | literal _ _ =>
    obtain ⟨hr, hc⟩ := h
    rw [hr, hc]
    exact afterResolution_reported ..
  | named _ _ =>
    obtain ⟨hr, hc⟩ := h
    rw [hr, hc]
    exact ⟨rfl, rfl⟩
  | resolved =>
    obtain ⟨hr, hc⟩ := h
    rw [hr, hc]
    exact afterResolution_reported ..
  | gaierror => exact .inl rfl
  | @posted n vars now =>
    obtain ⟨hr, hc, hle, hvars⟩ := h
    refine ⟨?_, ?_, hle, ?_⟩
    · simpa [Input.answer?] using hr
    · simpa [Input.clock?] using hc
    · simpa [Input.answer?, Input.clock?] using hvars.began now
  | @answered n vars res =>
    obtain ⟨hr, hc, hle, hvars⟩ := h
    cases hf : res.failure? with
    | none =>
      -- only an exception that leaves the loop is no failure
      cases res with
      | raised exc => trivial
      | response _ | timeoutException _ | connectError _ | httpError _ => cases hf
    | some failure =>
      obtain ⟨reason, text⟩ := failure
      rw [afterPost_failed (hok res rfl) hf]
      have hlength : (answers inputs ++ [res]).length = n := by simpa using hr
      have hnext := afterFailure_reported hlength hc hle (hvars.failed hf)
      simpa [Input.answer?, Input.clock?] using hnext

theorem reported_run (h : Run (advance env client job) .start inputs effs pos)
    (hok : ∀ res ∈ answers inputs, res.ok = false) : pos.Reported (answers inputs) (clocks inputs) := by
  induction h with
  | nil => exact ⟨rfl, rfl⟩
  | @snoc t t' inputs effs input eff _ hs ih =>
    have hsnoc : answers (inputs ++ [input]) = answers inputs ++ input.answer?.toList := readings_snoc ..
    rw [hsnoc] at hok
    apply (Turn.of_advance hs).reported (ih (fun res hres => hok res (List.mem_append_left _ hres)))
    intro res hres
    subst hres
    exact hok res (List.mem_append_right _ (List.mem_singleton_self res))

end

/-! ## The report -/

theorem textOr_ne_empty {text default : String} (h : default ≠ "") : textOr text default ≠ "" := by
  unfold textOr
  split
  · exact h
  · assumption

/-- Only a plain httpx.HTTPError can fail without a text. -/
theorem PostResult.failure?_text {res : PostResult} {reason text : String}
    (h : res.failure? = some (reason, text)) : text ≠ "" ↔ res ≠ .httpError "" := by
  cases res with
  | response statusCode =>
    cases h
    refine iff_of_true ?_ nofun
    intro he
    have hparts := String.append_eq_empty_iff.mp he
    exact absurd hparts.1 (by decide)
  | timeoutException _ | connectError _ =>
    cases h
    exact iff_of_true (textOr_ne_empty (by decide)) nofun
  | httpError _ =>
    cases h
    simp
  | raised _ => cases h

/-- The status the loop ends with is that of the last attempt, if it got a
response or none did. -/
theorem lastStatus_eq_iff {earlier : List PostResult} {res : PostResult} :
    ((earlier ++ [res]).filterMap PostResult.status).getLast? = res.status ↔
      res.status.isSome = true ∨ ∀ res' ∈ earlier, res'.status = none := by
  rw [readings_snoc, List.getLast?_append]
  cases hs : res.status with
  | some statusCode => exact iff_of_true rfl (.inl rfl)
  | none =>
    have hnil : (earlier.filterMap PostResult.status).getLast? = none ↔ ∀ res' ∈ earlier, res'.status = none := by
      rw [List.getLast?_eq_none_iff, List.filterMap_eq_nil_iff]
    rw [← hnil]
    simp

/-- **Failed reports.** The outcome of a relay whose four attempts failed
describes the fourth if and only if the fourth got a response or none did, and
it is not an httpx.HTTPError without a text. -/
theorem report_final_iff {env : Env} {client : Bool} {job : RelayJob} {inputs : List Input} {effs : List Effect}
    {out : RelayOutcome} (h : Run (advance env client job) .start inputs effs (.persist out))
    (hattempted : out.attempted = true) (hok : ∀ res ∈ answers inputs, res.ok = false) :
    ∃ earlier res times now, answers inputs = earlier ++ [res] ∧ earlier.length = 3 ∧
      clocks inputs = times ++ [now] ∧ times.length = 3 ∧
      (out.Describes res now ↔
        (res.status.isSome = true ∨ ∀ res' ∈ earlier, res'.status = none) ∧ res ≠ .httpError "") := by
  rcases reported_run h hok with hskip | ⟨vars, hr, ht, hvars, hreason, hstatus, herror, hat⟩
  · rw [hattempted] at hskip
    cases hskip
  obtain ⟨earlier, res, hanswers⟩ : ∃ earlier res, answers inputs = earlier ++ [res] :=
    ⟨_, _, (List.dropLast_append_getLast (List.ne_nil_of_length_eq_add_one hr)).symm⟩
  obtain ⟨times, now, hclocks⟩ : ∃ times now, clocks inputs = times ++ [now] :=
    ⟨_, _, (List.dropLast_append_getLast (List.ne_nil_of_length_eq_add_one ht)).symm⟩
  rw [hanswers, List.length_append, List.length_singleton] at hr
  rw [hclocks, List.length_append, List.length_singleton] at ht
  rw [hanswers, hclocks] at hvars
  refine ⟨earlier, res, times, now, hanswers, Nat.succ.inj hr, hclocks, Nat.succ.inj ht, ?_⟩
  obtain ⟨hf, hsome⟩ := hvars.failure res List.getLast?_concat
  obtain ⟨text, htext⟩ := Option.isSome_iff_exists.mp hsome
  rw [htext, Option.getD_some] at hf
  have hnow : out.lastAttemptAt = some (.ofUtc now) := by
    rw [hat, hvars.lastAttemptAt, List.getLast?_concat]
    rfl
  have hcode : out.statusCode = ((earlier ++ [res]).filterMap PostResult.status).getLast? :=
    hstatus.trans hvars.lastStatus
  rw [← lastStatus_eq_iff, ← PostResult.failure?_text hf, ← hcode]
  constructor
  · intro hd
    obtain ⟨reason, text', hf', -, -, hne⟩ := hd.failure
    rw [hf] at hf'
    cases hf'
    exact ⟨hd.statusCode, hne⟩
  · intro hd
    exact ⟨hd.1, ⟨vars.reason, text, hf, hreason, herror.trans htext, hd.2⟩, hnow⟩

/-- A call, a resolution, and an attempt for each result. -/
def failingInputs (results : List PostResult) : List Input :=
  [.call, .resolved (.addresses ["93.184.216.34"])] ++
    results.flatMap (fun res => [.post (sampleDraws 1 40).now ["93.184.216.34"] none, .answered res])

/-- Four timeouts are reported as the fourth. -/
theorem report_final_iff_timeouts :
    ∃ out effs, exec (advance sampleEnv true sampleJob) .start
        (failingInputs (List.replicate 4 (.timeoutException ""))) = some (.persist out, effs) ∧
      out.Describes (.timeoutException "") (sampleDraws 1 40).now := by
  have hrun : (exec (advance sampleEnv true sampleJob) .start
      (failingInputs (List.replicate 4 (.timeoutException "")))).map Prod.fst = some (.persist {
        attempted := true
        success := false
        reason := some "timeout"
        attempts := 4
        lastError := some "timeout"
        lastAttemptAt := some (.ofUtc (sampleDraws 1 40).now) }) := by
    decide +kernel
  obtain ⟨⟨pos, effs⟩, h, hpos⟩ := Option.map_eq_some_iff.mp hrun
  obtain rfl : pos = _ := hpos
  have hanswers : answers (failingInputs (List.replicate 4 (.timeoutException ""))) =
      List.replicate 3 (.timeoutException "") ++ [.timeoutException ""] := rfl
  have hclocks : clocks (failingInputs (List.replicate 4 (.timeoutException ""))) =
      List.replicate 3 (sampleDraws 1 40).now ++ [(sampleDraws 1 40).now] := rfl
  refine ⟨_, effs, h, ?_⟩
  obtain ⟨earlier, res, times, now, hr, -, ht, -, hiff⟩ := report_final_iff (Run.of_exec h) rfl (by
    intro res hres
    rw [hanswers, ← List.replicate_succ'] at hres
    rw [List.eq_of_mem_replicate hres]
    rfl)
  rw [hanswers] at hr
  rw [hclocks] at ht
  obtain ⟨rfl, hres⟩ := List.append_inj' hr rfl
  obtain ⟨-, hnow⟩ := List.append_inj' ht rfl
  cases hres
  cases hnow
  refine hiff.mpr ⟨.inr ?_, nofun⟩
  intro res' hres'
  rw [List.eq_of_mem_replicate hres']
  rfl

/-- A response with status 500 and three timeouts are reported as a timeout with
status 500, and an httpx.HTTPError without a text as an empty error. -/
theorem report_mixes_attempts :
    (∃ out effs, exec (advance sampleEnv true sampleJob) .start
        (failingInputs (.response 500 :: List.replicate 3 (.timeoutException ""))) = some (.persist out, effs) ∧
      out.reason = some "timeout" ∧ out.statusCode = some 500 ∧
      ∀ now, ¬ out.Describes (.timeoutException "") now) ∧
    ∃ out effs, exec (advance sampleEnv true sampleJob) .start
        (failingInputs (List.replicate 4 (.httpError ""))) = some (.persist out, effs) ∧
      out.lastError = some "" ∧ ∀ now, ¬ out.Describes (.httpError "") now := by
  have hmixed : (exec (advance sampleEnv true sampleJob) .start
      (failingInputs (.response 500 :: List.replicate 3 (.timeoutException "")))).map Prod.fst = some (.persist {
        attempted := true
        success := false
        reason := some "timeout"
        statusCode := some 500
        attempts := 4
        lastError := some "timeout"
        lastAttemptAt := some (.ofUtc (sampleDraws 1 40).now) }) := by
    decide +kernel
  have hempty : (exec (advance sampleEnv true sampleJob) .start
      (failingInputs (List.replicate 4 (.httpError "")))).map Prod.fst = some (.persist {
        attempted := true
        success := false
        reason := some "http_error"
        attempts := 4
        lastError := some ""
        lastAttemptAt := some (.ofUtc (sampleDraws 1 40).now) }) := by
    decide +kernel
  obtain ⟨⟨pos, effs⟩, h, hpos⟩ := Option.map_eq_some_iff.mp hmixed
  obtain ⟨⟨pos', effs'⟩, h', hpos'⟩ := Option.map_eq_some_iff.mp hempty
  obtain rfl : pos = _ := hpos
  obtain rfl : pos' = _ := hpos'
  refine ⟨⟨_, effs, h, rfl, rfl, ?_⟩, _, effs', h', rfl, ?_⟩
  · intro now hd
    cases hd.statusCode
  · intro now hd
    obtain ⟨reason, text, hf, -, -, hne⟩ := hd.failure
    cases hf
    exact hne rfl

end WebhookRelay
