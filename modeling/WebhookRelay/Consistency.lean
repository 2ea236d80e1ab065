import WebhookRelay.Deliveries

/-
  The relay columns fit together. `Position.Sound` is what the variables of a
  job satisfy at each position, an invariant of the retry loop; from it follow
  the outcomes a job can record (`RelayOutcome.Possible`), and from these, with
  the columns of a new row, the five shapes the relay columns of a row can have
  (`RelayColumns.Consistent`), in every run (`consistent_run`).
-/
namespace WebhookRelay

open Py Transition

/-- The reasons of a relay that was not attempted. -/
def skipReasons : List String :=
  ["unsupported_scheme", "invalid_target_url", "host_not_allowed", "blocked_ip", "dns_error",
    "relay_queue_full"]

/-- The reasons of a relay whose attempts all failed. -/
def failureReasons : List String := ["non_2xx", "timeout", "connection_error", "http_error"]

/-- A status code of no success. -/
def Non2xx (code : Option Int) : Prop := ∀ c, code = some c → ¬ (200 ≤ c ∧ c < 300)

/-- The outcomes that are recorded: a relay is skipped, succeeds at one of four
attempts, or fails after the fourth. -/
inductive RelayOutcome.Possible : RelayOutcome → Prop where
  | skipped {reason : String} {error : Option String} (hreason : reason ∈ skipReasons) :
      Possible { attempted := false, success := false, reason := some reason, lastError := error }
  | success {code : Int} {n : Nat} {now : Moment} (hcode : 200 ≤ code ∧ code < 300)
      (hn : 1 ≤ n ∧ n ≤ maxAttempts) :
      Possible {
        attempted := true
        success := true
        reason := some "success"
        statusCode := some code
        attempts := n
        lastAttemptAt := some (.ofUtc now) }
  | failed {reason : String} {code : Option Int} {error : Option String} {now : Moment}
      (hreason : reason ∈ failureReasons) (hcode : Non2xx code) :
      Possible {
        attempted := true
        success := false
        reason := some reason
        statusCode := code
        attempts := maxAttempts
        lastError := error
        lastAttemptAt := some (.ofUtc now) }

/-- The shapes of the relay columns. -/
inductive RelayColumns.Consistent : RelayColumns → Prop where
  | unset : Consistent {}
  | scheduled : Consistent { relayStatus := some "scheduled", relayReason := some "scheduled" }
  | skipped {reason : String} {error : Option String}
      (hreason : reason ≠ "scheduled" ∧ reason ≠ "success") :
      Consistent {
        relayStatus := some "skipped"
        relayReason := some reason
        relayLastError := error }
  | success {code : Int} {n : Nat} {lastAttemptAt : Datetime} (hcode : 200 ≤ code ∧ code < 300)
      (hn : 1 ≤ n ∧ n ≤ 4) :
      Consistent {
        relayStatus := some "success"
        relayAttempted := 1
        relaySuccess := 1
        relayAttempts := n
        relayReason := some "success"
        relayLastStatusCode := some code
        relayLastAttemptAt := some lastAttemptAt }
  | failed {reason : String} {code : Option Int} {error : Option String} {lastAttemptAt : Datetime}
      (hreason : reason ∈ ["non_2xx", "timeout", "connection_error", "http_error"])
      (hcode : ∀ c, code = some c → ¬ (200 ≤ c ∧ c < 300)) :
      Consistent {
        relayStatus := some "failed"
        relayAttempted := 1
        relaySuccess := 0
        relayAttempts := 4
        relayReason := some reason
        relayLastError := error
        relayLastStatusCode := code
        relayLastAttemptAt := some lastAttemptAt }

theorem skipReasons_ne {reason : String} (h : reason ∈ skipReasons) :
    reason ≠ "scheduled" ∧ reason ≠ "success" := by
  constructor
  · intro heq
    obtain rfl := heq
    exact absurd h (by decide)
  · intro heq
    obtain rfl := heq
    exact absurd h (by decide)

/-- The columns of a possible outcome are consistent, also when the database
drops the time zone. -/
theorem RelayOutcome.Possible.consistent {out : RelayOutcome} (h : out.Possible) (dropsTz : Bool) :
    ((relayUpdateValues out).stored dropsTz).Consistent := by
  cases h with
  | skipped hreason => exact .skipped (skipReasons_ne hreason)
  | success hcode hn => exact .success hcode hn
  | failed hreason hcode => exact .failed hreason hcode

/-- The columns of a new row are consistent. -/
theorem Intake.FromRequest.consistent {env : Env} {i : Intake} (h : i.FromRequest env) :
    (i.row env).toRelayColumns.Consistent := by
  obtain ⟨p, capacity, req, draws, hb⟩ := h
  obtain ⟨payload, -, -, -, hcases⟩ := buildEvent_ok hb
  have hrow : (i.row env).toRelayColumns = i.event.toRelayColumns.stored env.dropsTz := rfl
  rw [hrow]
  rcases hcases with ⟨-, hr, -⟩ | ⟨-, -, hr, -⟩ | ⟨-, -, hr, -⟩ <;> rw [hr]
  · exact .unset
  · exact .scheduled
  · exact .skipped ⟨by decide, by decide⟩

/-! ## The loop of a job -/

/-- The variables of the loop, whenever an attempt may begin or end. -/
structure LoopVars.Sound (vars : LoopVars) : Prop where
  reason : vars.reason ∈ failureReasons
  lastStatus : Non2xx vars.lastStatus

def Position.Sound : Position → Prop
  | .start | .resolving | .returned | .raised _ => True
  | .attempt n vars => (1 ≤ n ∧ n ≤ maxAttempts) ∧ vars.Sound
  | .inFlight n vars => (1 ≤ n ∧ n ≤ maxAttempts) ∧ vars.Sound ∧ ∃ now, vars.lastAttemptAt = some (.ofUtc now)
  | .persist out => out.Possible

theorem LoopVars.sound_initial : LoopVars.Sound {} := by
  refine ⟨by decide, ?_⟩
  intro c hc
  cases hc

section

variable {env : Env} {client : Bool} {job : RelayJob} {tr : List Effect} {pos pos' : Position}
  {input : Input} {eff : Effect} {out : RelayOutcome}

/-- The preflight skips with one of its reasons and nothing else. -/
theorem preflightPolicy_skips (h : preflightPolicy env job = .ok (.inl out)) :
    ∃ reason ∈ skipReasons, out = { attempted := false, success := false, reason := some reason } := by
  unfold preflightPolicy at h
  split at h
  · cases h
  · simp only at h
    split at h
    · cases h
      exact ⟨_, by decide, rfl⟩
    · split at h
      · cases h
        exact ⟨_, by decide, rfl⟩
      · split at h
        · cases h
          exact ⟨_, by decide, rfl⟩
        · cases h

theorem screenIps_skips {allow : Bool} {ips : List String} (h : screenIps env allow ips = .ok (some out)) :
    ∃ reason ∈ skipReasons, out = { attempted := false, success := false, reason := some reason } := by
  induction ips with
  | nil => cases h
  | cons ip ips ih =>
    rw [screenIps] at h
    split at h
    · exact ih h
    · split at h
      · cases h
      · cases h
        exact ⟨_, by decide, rfl⟩
      · exact ih h

theorem afterResolution_sound (env : Env) (client : Bool) (job : RelayJob) (ips : List String) :
    (afterResolution env client job ips).Sound := by
  rcases afterResolution_cases env client job ips with ⟨_, -, h⟩ | ⟨_, hs, h⟩ | ⟨-, _, h⟩ | ⟨-, h⟩ <;> rw [h]
  · trivial
  · obtain ⟨reason, hreason, rfl⟩ := screenIps_skips hs
    exact .skipped hreason
  · trivial
  · exact ⟨⟨Nat.le_refl 1, by decide⟩, LoopVars.sound_initial⟩

/-- A failed pass goes on with sound variables, or ends in a failure after the
last attempt. -/
theorem afterFailure_sound {n : Nat} {vars : LoopVars} {now : Moment} (hvars : vars.Sound)
    (hat : vars.lastAttemptAt = some (.ofUtc now)) : (afterFailure n vars).Sound := by
  unfold afterFailure
  split
  · next hlt => exact ⟨⟨Nat.le_add_left 1 n, hlt⟩, hvars⟩
  · rw [hat]
    exact .failed hvars.reason hvars.lastStatus

theorem afterPost_sound {n : Nat} {vars : LoopVars} (res : PostResult) (h : (Position.inFlight n vars).Sound) :
    (afterPost n vars res).Sound := by
  obtain ⟨hn, hvars, now, hat⟩ := h
  cases res with
  | response statusCode =>
    rw [afterPost]
    split
    · next hok =>
      rw [hat]
      exact .success hok hn
    · next hbad =>
      refine afterFailure_sound ⟨(by decide : "non_2xx" ∈ failureReasons), ?_⟩ hat
      intro c hc
      cases hc
      exact hbad
  | timeoutException text =>
    exact afterFailure_sound ⟨(by decide : "timeout" ∈ failureReasons), hvars.lastStatus⟩ hat
  | connectError text =>
    exact afterFailure_sound ⟨(by decide : "connection_error" ∈ failureReasons), hvars.lastStatus⟩ hat
  | httpError text =>
    exact afterFailure_sound ⟨(by decide : "http_error" ∈ failureReasons), hvars.lastStatus⟩ hat
  | raised exc => trivial

/-- Every turn of a job keeps its position sound. -/
theorem Turn.sound (ht : Turn env client job pos input pos' eff) (h : pos.Sound) : pos'.Sound := by
  cases ht with
  | unparsed _ | named _ _ | unresolved | recorded => trivial
  | skipped hp =>
    obtain ⟨reason, hreason, rfl⟩ := preflightPolicy_skips hp
    exact .skipped hreason
  | literal _ _ | resolved => exact afterResolution_sound ..
  | gaierror => exact .skipped (by decide)
  | @posted _ _ now => exact ⟨h.1, ⟨h.2.reason, h.2.lastStatus⟩, now, rfl⟩
  | answered => exact afterPost_sound _ h

theorem JobTrace.sound (h : JobTrace env job tr pos) : pos.Sound := by
  induction h with
  | start => trivial
  | turn _ ht ih => exact ht.sound ih

end

/-! ## Runs -/

section

variable {env : Env} {w w' : World} {a : Act} {o : Obs} {as : List Act} {os : List Obs}

theorem possible_queueFull : queueFullRelayResult.Possible := .skipped (by decide)

/-- What is recorded is the queue-full outcome, or what a job has come to. -/
theorem Move.records_inv (hm : Move env w a w' o) (hw : ∀ p, (w.procs p).dispatcher.WF) {id : String}
    {out : RelayOutcome} (hrec : o.records = some (id, out)) :
    out = queueFullRelayResult ∨
      ∃ p t q job, job.eventId = id ∧ w.jobAt p t = some (q, job, .persist out) := by
  unfold Obs.records at hrec
  split at hrec
  · cases hrec
    exact .inl rfl
  · next p t id' out' =>
    cases hrec
    have heff : Obs.effect id (.job p t id (.recorded out)) = some (.recorded out) := if_pos rfl
    obtain ⟨p', t', q, job, pos, pos', input, hold, hid, -, -, ht, -⟩ := effect_turned hm hw heff
    cases ht
    exact .inr ⟨p', t', q, job, hid, hold⟩
  · cases hrec

/-- Whatever is recorded is a possible outcome. -/
theorem records_possible (h : Run (step env) World.initial as os w) (hm : Move env w a w' o)
    {id : String} {out : RelayOutcome} (hrec : o.records = some (id, out)) : out.Possible := by
  rcases hm.records_inv (workers_run h) hrec with rfl | ⟨p, t, q, job, -, hjob⟩
  · exact possible_queueFull
  · exact ((traced_run h).running p t q job _ hjob).sound

/-- **Relay columns are consistent.** In every state reached, whatever the
resolver and the peers answer, every row has one of the five shapes. -/
theorem consistent_run (h : Run (step env) World.initial as os w) :
    ∀ row ∈ w.store.rows, row.toRelayColumns.Consistent := by
  induction h with
  | nil =>
    intro row hrow
    cases hrow
  | @snoc t t' as os a o hrun hs ih =>
    intro row' hrow'
    have hm := Move.of_step hs
    rcases hm.row_back hrow' with ⟨r, rfl⟩ | ⟨row, hrow, -, ⟨rfl, -⟩ | ⟨result, hrec, hrel⟩⟩
    · obtain ⟨i, hh, rfl, -⟩ := hm.inserted_inv
      exact ((fresh_run hrun).fromRequest r i (built_of_active hrun hh)).consistent
    · exact ih row hrow
    · rw [hrel]
      exact (records_possible hrun hm hrec).consistent env.dropsTz

end

/-- The row of a delivery is consistent. -/
theorem consistent_run_delivered :
    ∃ w os row, exec (step sampleEnv) World.initial (acceptActs ++ deliverActs) = some (w, os) ∧
      row ∈ w.store.rows ∧ row.relayStatus = some "success" ∧ row.toRelayColumns.Consistent := by
  have hrun : (exec (step sampleEnv) World.initial (acceptActs ++ deliverActs)).map (fun r =>
      r.1.store.rows.map (fun e => e.relayStatus)) = some [some "success"] := by
    decide +kernel
  obtain ⟨w, os, row, h, hrow, hst⟩ := exec_row hrun
  exact ⟨w, os, row, h, hrow, hst, consistent_run (Run.of_exec h) row hrow⟩

end WebhookRelay
