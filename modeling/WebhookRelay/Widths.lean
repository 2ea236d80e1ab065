import WebhookRelay.Admission
import WebhookRelay.Consistency

/-
  The widths the schema declares for its text columns. Nothing in the code cuts
  a text to its width, and SQLite stores any length, so the widths hold as far
  as the inputs do: `stored_widths` says of every run that all rows fit when each
  INSERT, each failed resolution and each last attempt has texts that fit. The
  ids, the statuses and the reasons always do.
-/
namespace WebhookRelay

open Py Transition

/-- The declared widths of the relay columns. -/
structure RelayColumns.Fits (v : RelayColumns) : Prop where
  relayStatus : ∀ s, v.relayStatus = some s → s.length ≤ 32
  relayReason : ∀ s, v.relayReason = some s → s.length ≤ 64
  relayLastError : ∀ s, v.relayLastError = some s → s.length ≤ 500

/-- The declared widths of the intake columns. -/
structure IntakeColumns.Fits (c : IntakeColumns) : Prop where
  id : c.id.length ≤ 36
  source : c.source.length ≤ 100
  requestId : c.requestId.length ≤ 36
  idempotencyKey : ∀ s, c.idempotencyKey = some s → s.length ≤ 255

/-- The declared widths of `Event`. -/
def Event.Fits (row : Event) : Prop := row.toIntakeColumns.Fits ∧ row.toRelayColumns.Fits

/-- The text a failed attempt leaves in `last_error`. -/
def PostResult.errorText : PostResult → Option String
  | .response statusCode =>
    if 200 ≤ statusCode ∧ statusCode < 300 then none else some s!"non-2xx response: {statusCode}"
  | .timeoutException text => some (textOr text "timeout")
  | .connectError text => some (textOr text "connection error")
  | .httpError text => some text
  | .raised _ => none

/-- Status codes of three digits leave a text that fits. -/
theorem errorText_response {statusCode : Int} (h0 : 0 ≤ statusCode) (h : statusCode < 1000) {e : String}
    (he : (PostResult.response statusCode).errorText = some e) : e.length ≤ 500 := by
  obtain ⟨n, rfl⟩ := Int.eq_ofNat_of_zero_le h0
  have hn : n.repr.length ≤ 3 := (Nat.length_repr_le_iff (by decide)).mpr (by omega)
  unfold PostResult.errorText at he
  simp only at he
  split at he
  · cases he
  · cases he
    rw [String.length_append]
    exact Nat.le_trans (Nat.add_le_add_left hn _) (by decide)

/-- The step's texts fit: what an INSERT is about to store, what a failed
resolution reports, and what the last attempt of a relay reports. -/
def Narrow (env : Env) (w : World) : Act → Prop
  | .handler r => ∀ i, w.handlers r = .active i .inserting → ¬ w.store.Conflicts (i.row env) →
      i.event.source.length ≤ 100 ∧ i.event.requestId.length ≤ 36 ∧
        ∀ s, i.event.idempotencyKey = some s → s.length ≤ 255
  | .work _ _ (.resolved (.gaierror text)) => text.length ≤ 500
  | .work p t (.answered res) => ∀ q job vars, w.jobAt p t = some (q, job, .inFlight maxAttempts vars) →
      ∀ e, res.errorText = some e → e.length ≤ 500
  | _ => True

/-- The text a job is about to record fits. -/
def Position.Narrow : Position → Prop
  | .persist out => ∀ s, out.lastError = some s → s.length ≤ 500
  | _ => True

section

variable {env : Env} {client : Bool} {job : RelayJob} {pos pos' : Position} {input : Input}
  {eff : Effect} {out : RelayOutcome}

theorem narrow_none (h : out.lastError = none) : (Position.persist out).Narrow := by
  intro s hs
  rw [h] at hs
  cases hs

theorem afterResolution_narrow (env : Env) (client : Bool) (job : RelayJob) (ips : List String) :
    (afterResolution env client job ips).Narrow := by
  rcases afterResolution_cases env client job ips with ⟨_, -, h⟩ | ⟨_, hs, h⟩ | ⟨-, _, h⟩ | ⟨-, h⟩ <;> rw [h]
  · trivial
  · obtain ⟨reason, -, rfl⟩ := screenIps_skips hs
    exact narrow_none rfl
  · trivial
  · trivial

theorem afterFailure_narrow {n : Nat} {vars : LoopVars}
    (h : n = maxAttempts → ∀ e, vars.lastError = some e → e.length ≤ 500) (hn : n ≤ maxAttempts) :
    (afterFailure n vars).Narrow := by
  unfold afterFailure
  split
  · trivial
  · next hlt => exact h (Nat.le_antisymm hn (Nat.not_lt.mp hlt))

/-- Only the answer of the last attempt can be recorded as an error. -/
theorem afterPost_narrow {n : Nat} (vars : LoopVars) {res : PostResult} (hn : n ≤ maxAttempts)
    (h : n = maxAttempts → ∀ e, res.errorText = some e → e.length ≤ 500) :
    (afterPost n vars res).Narrow := by
  cases res with
  | response statusCode =>
    rw [afterPost]
    split
    · exact narrow_none rfl
    · next hbad =>
      refine afterFailure_narrow (fun hlast e he => h hlast e ?_) hn
      rw [PostResult.errorText, if_neg hbad]
      exact he
  | timeoutException text => exact afterFailure_narrow h hn
  | connectError text => exact afterFailure_narrow h hn
  | httpError text => exact afterFailure_narrow h hn
  | raised exc => trivial

end

/-! ## Rows -/

theorem FinalStatus.fits {status : Option String} (h : FinalStatus status) {s : String}
    (hs : status = some s) : s.length ≤ 32 := by
  rcases h with rfl | rfl | rfl <;> cases hs <;> decide

/-- The columns of a possible outcome fit when its error does. -/
theorem RelayOutcome.Possible.fits {out : RelayOutcome} (h : out.Possible) (dropsTz : Bool)
    (he : (Position.persist out).Narrow) : ((relayUpdateValues out).stored dropsTz).Fits := by
  have hskip : ∀ s ∈ skipReasons, s.length ≤ 64 := by decide
  have hfail : ∀ s ∈ failureReasons, s.length ≤ 64 := by decide
  refine ⟨fun s hs => (relayUpdateValues_final out dropsTz).fits hs, ?_, he⟩
  intro s hs
  cases h with
  | skipped hreason =>
    cases hs
    exact hskip s hreason
  | success hcode hn =>
    cases hs
    decide
  | failed hreason hcode =>
    cases hs
    exact hfail s hreason

/-- The relay columns of a new row fit. -/
theorem Intake.FromRequest.fits {env : Env} {i : Intake} (h : i.FromRequest env) :
    (i.row env).toRelayColumns.Fits := by
  obtain ⟨p, capacity, req, draws, hb⟩ := h
  obtain ⟨payload, -, -, -, hcases⟩ := buildEvent_ok hb
  have hrow : (i.row env).toRelayColumns = i.event.toRelayColumns.stored env.dropsTz := rfl
  rw [hrow]
  rcases hcases with ⟨-, hr, -⟩ | ⟨-, -, hr, -⟩ | ⟨-, -, hr, -⟩ <;> rw [hr] <;>
    refine ⟨?_, ?_, ?_⟩ <;> intro s hs <;> cases hs <;> decide

theorem Intake.FromRequest.id_length {env : Env} {i : Intake} (h : i.FromRequest env) :
    i.event.id.length = 36 := by
  obtain ⟨p, capacity, req, draws, hb⟩ := h
  obtain ⟨payload, -, -, hcols, -⟩ := buildEvent_ok hb
  rw [show i.event.id = draws.eventUuid.text from congrArg IntakeColumns.id hcols]
  exact draws.eventUuid.length_eq

section

variable {env : Env} {w w' : World} {a : Act} {o : Obs} {as : List Act} {os : List Obs}

/-- A step whose texts fit keeps what the jobs are about to record within the
width. -/
theorem narrow_jobs_step (h : Run (step env) World.initial as os w) (hm : Move env w a w' o)
    (ha : Narrow env w a)
    (hjobs : ∀ p t q job pos, w.jobAt p t = some (q, job, pos) → pos.Narrow) :
    ∀ p t q job pos, w'.jobAt p t = some (q, job, pos) → pos.Narrow := by
  intro p t q job pos hjob
  cases hm.jobShift (workers_run h) p t with
  | same hnew _ =>
    rw [hnew] at hjob
    exact hjobs p t q job pos hjob
  | taken _ _ _ hnew =>
    rw [hnew] at hjob
    cases hjob
    trivial
  | finished _ _ _ hnew | dropped _ _ _ hnew =>
    rw [hnew] at hjob
    cases hjob
  | @turned q' job' pos₀ pos' input eff hold hact _ ht _ hnew =>
    rw [hnew] at hjob
    cases hjob
    subst hact
    have hsound := ((traced_run h).running p t q job pos₀ hold).sound
    cases ht with
    | unparsed _ | named _ _ | unresolved | posted _ | recorded => trivial
    | skipped hp =>
      obtain ⟨reason, -, rfl⟩ := preflightPolicy_skips hp
      exact narrow_none rfl
    | literal _ _ | resolved => exact afterResolution_narrow ..
    | gaierror =>
      rintro s hs
      cases hs
      exact ha
    | @answered n vars res =>
      apply afterPost_narrow vars hsound.1.2
      rintro rfl e he
      exact ha q job vars hold e he

/-- **Stored widths.** In every run whose steps have texts that fit, every row
fits its columns. -/
theorem stored_widths (h : Run (step env) World.initial as os w)
    (hnarrow : Meets (step env) (Narrow env) World.initial as) :
    ∀ row ∈ w.store.rows, row.Fits := by
  have hboth : (∀ row ∈ w.store.rows, row.Fits) ∧
      ∀ p t q job pos, w.jobAt p t = some (q, job, pos) → pos.Narrow := by
    induction h with
    | nil =>
      refine ⟨?_, ?_⟩
      · intro row hrow
        cases hrow
      · intro p t q job pos hjob
        cases hjob
    | @snoc t t' as os a o hrun hs ih =>
      obtain ⟨hrows, hjobs⟩ := ih hnarrow.init
      have hm := Move.of_step hs
      have ha := hnarrow.last hrun
      refine ⟨?_, narrow_jobs_step hrun hm ha hjobs⟩
      intro row' hrow'
      rcases hm.row_back hrow' with ⟨r, rfl⟩ | ⟨row, hrow, hcols, ⟨rfl, -⟩ | ⟨result, hrec, hrel⟩⟩
      · obtain ⟨i, hh, rfl, hins⟩ := hm.inserted_inv
        obtain rfl := hm.inserted_by
        have hreq := (fresh_run hrun).fromRequest r i (built_of_active hrun hh)
        obtain ⟨hsource, hrequestId, hkey⟩ := ha i hh (Store.insert_rows hins).1
        exact ⟨⟨Nat.le_of_eq hreq.id_length, hsource, hrequestId, hkey⟩, hreq.fits⟩
      · exact hrows row hrow
      · refine ⟨hcols ▸ (hrows row hrow).1, ?_⟩
        rw [hrel]
        apply (records_possible hrun hm hrec).fits env.dropsTz
        rcases hm.records_inv (workers_run hrun) hrec with rfl | ⟨p, u, q, job, -, hjob⟩
        · intro s hs
          cases hs
          decide
        · exact hjobs p u q job _ hjob
  exact hboth.1

end

/-- A test for `Narrow`, for steps without an answer to a POST. -/
def narrowTest (w : World) : Act → Bool
  | .handler r =>
    match w.handlers r with
    | .active i .inserting =>
      decide (i.event.source.length ≤ 100) && decide (i.event.requestId.length ≤ 36) &&
        i.event.idempotencyKey.all (fun s => decide (s.length ≤ 255))
    | _ => true
  | .work _ _ (.resolved (.gaierror text)) => decide (text.length ≤ 500)
  | .work _ _ (.answered _) => false
  | _ => true

theorem narrow_of_test (env : Env) (w : World) (a : Act) (h : narrowTest w a = true) : Narrow env w a := by
  unfold narrowTest at h
  unfold Narrow
  split at h
  · next r =>
    intro i hh _
    rw [hh] at h
    simp only [Bool.and_eq_true, decide_eq_true_eq] at h
    refine ⟨h.1.1, h.1.2, fun s hs => ?_⟩
    have hkey := h.2
    rw [hs] at hkey
    exact of_decide_eq_true hkey
  · exact of_decide_eq_true h
  · cases h
  · trivial

/-- A request is accepted, and the host of its target is not resolved. -/
def unresolvedActs : List Act :=
  acceptActs ++ [.begin 0 0, .take 0 0, .work 0 0 .call,
    .work 0 0 (.resolved (.gaierror "Name or service not known")), .work 0 0 .persist]

/-- The row that records the text of a failed resolution fits. -/
theorem stored_widths_unresolved :
    ∃ w os row, exec (step sampleEnv) World.initial unresolvedActs = some (w, os) ∧ row ∈ w.store.rows ∧
      row.relayLastError.isSome = true ∧ row.Fits := by
  have hrun : (exec (step sampleEnv) World.initial unresolvedActs).map
      (fun r => r.1.store.rows.map (fun e => e.relayLastError.isSome)) = some [true] := by
    decide +kernel
  obtain ⟨w, os, row, h, hrow, herror⟩ := exec_row hrun
  have hnarrow : Meets (step sampleEnv) (Narrow sampleEnv) World.initial unresolvedActs :=
    Meets.of_passes (narrow_of_test sampleEnv) (by decide +kernel)
  exact ⟨w, os, row, h, hrow, herror, stored_widths (Run.of_exec h) hnarrow row hrow⟩

/-! ## A source that does not fit -/

def longSource : String := String.ofList (List.replicate 101 'a')

def longRequest : Request where
  source := longSource
  rawBody := asciiBytes acceptedBody.toList
  headers := [("x-request-id", "req-1")]

/-- A request with a source of 101 characters is stored as it is. -/
theorem long_source_stored :
    ∃ w os row, exec (step sampleEnv) World.initial
        [.startup 0, .request 0 1 longRequest (sampleDraws 1 10), .handler 1] = some (w, os) ∧
      row ∈ w.store.rows ∧ ¬ row.Fits := by
  have hrun : (exec (step sampleEnv) World.initial
      [.startup 0, .request 0 1 longRequest (sampleDraws 1 10), .handler 1]).map (fun r =>
        r.1.store.rows.map (fun e => e.source.length)) = some [101] := by
    decide +kernel
  obtain ⟨w, os, row, h, hrow, hsource⟩ := exec_row hrun
  refine ⟨w, os, row, h, hrow, ?_⟩
  intro hfits
  have hle := hfits.1.source
  rw [hsource] at hle
  exact absurd hle (by decide)

end WebhookRelay
