import WebhookRelay.Metrics

/-
  What a row says, and what was sent. The relay columns are a report on the
  network, written once, by the job that did the sending or by the handler that
  gave up on it. `JobTrace.counts` is the account a job can give of itself at
  every position; carried through the recording and the columns it makes the
  report true for every row whose relay is not still scheduled
  (`rows_truthful`): it names the POSTs that were sent for the event, and claims
  success exactly if one of them was answered with a 2xx.
-/
namespace WebhookRelay

open Py Transition

/-! ## The account of a job -/

section

variable {env : Env} {job : RelayJob} {tr : List Effect} {pos pos' : Position} {out : RelayOutcome}

/-- An outcome is recorded at the end of a job. -/
theorem recorded_turn {client : Bool} {input : Input}
    (ht : Turn env client job pos input pos' (.recorded out)) : pos = .persist out ∧ pos' = .returned := by
  generalize heff : Effect.recorded out = eff at ht
  cases ht <;> cases heff
  exact ⟨rfl, rfl⟩

/-- A job that has recorded its outcome is done. -/
theorem JobTrace.recorded_last (h : JobTrace env job tr pos) (hrec : .recorded out ∈ tr) : pos = .returned := by
  induction h with
  | start => cases hrec
  | turn _ ht ih =>
    rcases List.mem_append.mp hrec with hmem | hmem
    · -- nothing follows the recording
      exact absurd (ih hmem) ht.pos_ne
    · cases List.mem_singleton.mp hmem
      exact (recorded_turn ht).2

/-- What a job that has returned has recorded is what it had come to. -/
theorem JobTrace.returned_inv (h : JobTrace env job tr .returned) :
    ∃ tr' out, tr = tr' ++ [.recorded out] ∧ JobTrace env job tr' (.persist out) := by
  generalize hpos : Position.returned = pos at h
  cases h with
  | start => cases hpos
  | @turn tr₀ client pos₀ pos₁ input eff hpre ht =>
    by_cases hrec : ∃ out, eff = .recorded out
    · obtain ⟨out, rfl⟩ := hrec
      obtain ⟨rfl, -⟩ := recorded_turn ht
      exact ⟨tr₀, out, rfl, hpre⟩
    · exact absurd hpos.symm (ht.stays (fun out he => hrec ⟨out, he⟩)).2.1

/-- Until it ends a job has sent the POSTs of its attempts, and none of them was
answered with a 2xx unless it has come to a success. -/
theorem JobTrace.counts (h : JobTrace env job tr pos) (hopen : pos.ended? = none) :
    tr.countP Effect.isPost = pos.posts + pos.returnedAttempts ∧
      tr.countP Effect.isSuccess = if pos.outcome?.any (fun out => out.success) then 1 else 0 := by
  induction h with
  | start => exact ⟨rfl, rfl⟩
  | @turn tr client pos₀ pos₁ input eff hpre ht ih =>
    have hopen₀ : pos₀.ended? = none ∧ pos₀.outcome? = none := by
      cases ht with
      | recorded => cases hopen
      | unparsed | skipped | literal | named | resolved | gaierror | unresolved | posted | answered => exact ⟨rfl, rfl⟩
    have hanswer : ∀ exc, eff ≠ .answered (.raised exc) := by
      intro exc heff
      subst heff
      cases ht
      cases hopen
    obtain ⟨hposts, hsuccesses⟩ := ih hopen₀.1
    obtain ⟨hturn, -⟩ := ht.attempts hpre.sound hanswer
    have hreturned : pos₀.returnedAttempts = 0 := by
      rw [Position.returnedAttempts, hopen₀.2]
      rfl
    rw [List.countP_append, List.countP_append, List.countP_singleton, List.countP_singleton, hposts, hsuccesses,
      ht.success hpre.sound, hopen₀.2]
    refine ⟨?_, ?_⟩
    · omega
    · exact Nat.zero_add _

/-- A success is the last answer's. -/
theorem JobTrace.success_inv (h : JobTrace env job tr (.persist out)) (hs : out.success = true) :
    ∃ tr' code, tr = tr' ++ [.answered (.response code)] ∧ out.statusCode = some code ∧ 200 ≤ code ∧ code < 300 := by
  generalize hpos : Position.persist out = pos at h
  cases h with
  | start => cases hpos
  | @turn tr₀ client pos₀ pos₁ input eff hpre ht =>
    subst hpos
    have hok : eff.isSuccess = true := by
      rw [← ht.success hpre.sound]
      exact hs
    cases eff with
    | answered res =>
      cases res with
      | response code =>
        have hrange : 200 ≤ code ∧ code < 300 := by
          simpa [Effect.isSuccess, PostResult.ok] using hok
        generalize hafter : Position.persist out = pos at ht
        cases ht
        rw [afterPost, if_pos hrange] at hafter
        cases hafter
        exact ⟨tr₀, code, rfl, rfl, hrange⟩
      | timeoutException | connectError | httpError | raised => cases hok
    | taken | called | resolved | posted | recorded | finished | dropped => cases hok

end

/-! ## The report of a row -/

section

variable {env : Env} {w : World} {as : List Act} {os : List Obs}

theorem mem_outcomes {id : String} {out : RelayOutcome} :
    out ∈ outcomes id os ↔ ∃ o ∈ os, o.records = some (id, out) := by
  rw [outcomes, List.mem_filterMap]
  constructor
  · intro h
    obtain ⟨o, ho, hbind⟩ := h
    obtain ⟨⟨id', out'⟩, hrec, hif⟩ := Option.bind_eq_some_iff.mp hbind
    by_cases hid : id' = id
    · rw [if_pos hid] at hif
      exact ⟨o, ho, by rw [hrec, ← hid, ← Option.some.inj hif]⟩
    · rw [if_neg hid] at hif
      cases hif
  · intro h
    obtain ⟨o, ho, hrec⟩ := h
    exact ⟨o, ho, by rw [hrec, Option.bind_some, if_pos rfl]⟩

/-- Effects are those of a job its queue accepted. -/
theorem effects_of_accepted (h : Run (step env) World.initial as os w) {r : Nat} {i : Intake}
    (hb : .built r i ∈ os) (hne : effects i.event.id os ≠ []) :
    ∃ p q pos, .enqueued r p q (relayJob (env.settings p) i.event) ∈ os ∧
      JobTrace env (relayJob (env.settings p) i.event) (effects i.event.id os) pos := by
  rcases (traced_run h).whole i.event.id with hempty | ⟨p, r', i', pos, hid, hjob, htr⟩
  · exact absurd hempty hne
  · obtain ⟨rfl, rfl⟩ := built_unique h hjob.built hb hid
    obtain ⟨q, hq⟩ := hjob.accepted
    exact ⟨p, q, pos, hq, htr⟩

/-- A relay that was not scheduled has no effects. -/
theorem effects_unscheduled (h : Run (step env) World.initial as os w) {r : Nat} {i : Intake}
    (hb : .built r i ∈ os) (hs : (i.row env).relayStatus ≠ some "scheduled") : effects i.event.id os = [] := by
  by_contra hne
  obtain ⟨p, q, -, hq, -⟩ := effects_of_accepted h hb hne
  obtain ⟨-, -, -, i', hb', ht, hfull⟩ := (shape_run h r).accepted (mem_trail.mpr ⟨hq, rfl⟩)
  obtain rfl := (shape_run h r).built_unique hb' (mem_trail.mpr ⟨hb, rfl⟩)
  exact hs (congrArg RelayColumns.relayStatus (((fresh_run h).fromRequest r i' hb).scheduled ht hfull))

/-- Nor has one that was marked queue-full. -/
theorem effects_marked (h : Run (step env) World.initial as os w) {r r' : Nat} {i : Intake}
    (hb : .built r i ∈ os) (hm : .marked r' i.event.id ∈ os) : effects i.event.id os = [] := by
  by_contra hne
  obtain ⟨p, q, -, hq, -⟩ := effects_of_accepted h hb hne
  obtain ⟨i', hjob⟩ := (jobs_run h).accepted _ _ _ _ hq
  exact hjob.not_marked h r' hm

/-- What is recorded for an event is the queue-full outcome of an event for which
nothing was sent, or the last effect of its job. -/
theorem outcome_effects (h : Run (step env) World.initial as os w) {r : Nat} {i : Intake} {out : RelayOutcome}
    (hb : .built r i ∈ os) (hout : outcomes i.event.id os = [out]) :
    (out = queueFullRelayResult ∧ effects i.event.id os = []) ∨
      ∃ tr job, effects i.event.id os = tr ++ [.recorded out] ∧ JobTrace env job tr (.persist out) := by
  obtain ⟨o, ho, hrec⟩ := mem_outcomes.mp (hout ▸ List.mem_singleton_self out : out ∈ outcomes i.event.id os)
  unfold Obs.records at hrec
  split at hrec
  · cases hrec
    exact .inl ⟨rfl, effects_marked h hb ho⟩
  · next p t id' out' =>
    cases hrec
    -- the job's trace ends with what it recorded, which is the one outcome
    have hmem : Effect.recorded out ∈ effects i.event.id os := List.mem_filterMap.mpr ⟨_, ho, if_pos rfl⟩
    obtain ⟨p', -, pos, -, htr⟩ := effects_of_accepted h hb (List.ne_nil_of_mem hmem)
    have hpos := htr.recorded_last hmem
    subst hpos
    obtain ⟨tr, out', heq, hpersist⟩ := htr.returned_inv
    obtain ⟨o', ho', heff⟩ := List.mem_filterMap.mp
      (heq ▸ List.mem_append_right tr (List.mem_singleton_self _) : Effect.recorded out' ∈ effects i.event.id os)
    obtain ⟨p'', t', rfl, -⟩ := Obs.effect_some heff
    have hsame : out' ∈ outcomes i.event.id os := mem_outcomes.mpr ⟨_, ho', rfl⟩
    rw [hout, List.mem_singleton] at hsame
    subst hsame
    exact .inr ⟨tr, _, heq, hpersist⟩
  · cases hrec

/-- What the relay columns of a row say is what happened on the network. -/
structure RelayColumns.Truthful (v : RelayColumns) (tr : List Effect) : Prop where
  attempts : v.relayAttempts = tr.countP Effect.isPost
  success : v.relaySuccess = tr.countP Effect.isSuccess
  code : v.relayStatus = some "success" → ∃ tr' code out, tr = tr' ++ [.answered (.response code), .recorded out] ∧
    v.relayLastStatusCode = some code ∧ 200 ≤ code ∧ code < 300

/-- The columns of an outcome are as truthful as the outcome. -/
theorem truthful_outcome {job : RelayJob} {tr : List Effect} {out : RelayOutcome} (dropsTz : Bool)
    (h : JobTrace env job tr (.persist out)) :
    ((relayUpdateValues out).stored dropsTz).Truthful (tr ++ [.recorded out]) := by
  obtain ⟨hposts, hsuccesses⟩ := h.counts rfl
  have hquiet : ∀ kind : Effect → Bool, kind (.recorded out) = false →
      (tr ++ [Effect.recorded out]).countP kind = tr.countP kind := by
    intro kind hk
    rw [List.countP_append, List.countP_singleton, hk]
    rfl
  refine ⟨?_, ?_, ?_⟩
  · rw [hquiet _ rfl, hposts]
    exact (Nat.zero_add _).symm
  · rw [hquiet _ rfl, hsuccesses]
    rfl
  · intro hstatus
    have hs : out.success = true := by
      cases hs : out.success with
      | true => rfl
      | false =>
        simp only [RelayColumns.stored, relayUpdateValues, hs] at hstatus
        cases ha : out.attempted <;> simp [ha] at hstatus
    obtain ⟨tr', code, rfl, hcode, hrange⟩ := h.success_inv hs
    exact ⟨tr', code, out, by rw [List.append_assoc]; rfl, hcode, hrange⟩

/-- **Rows are truthful.** In every state reached, the relay columns of each row
whose relay is not still scheduled count the POSTs that were sent for its event,
and claim success exactly if one of them was answered with a 2xx, naming the
status of that answer. For a row that is still scheduled no outcome has been
recorded. -/
theorem rows_truthful (h : Run (step env) World.initial as os w) :
    ∀ row ∈ w.store.rows,
      (row.relayStatus ≠ some "scheduled" → row.toRelayColumns.Truthful (effects row.id os)) ∧
      (row.relayStatus = some "scheduled" → outcomes row.id os = []) := by
  intro row hrow
  obtain ⟨r, i, hhist⟩ := rowHistory_run h row hrow
  have hid : row.id = (i.row env).id := congrArg IntakeColumns.id hhist.intake
  change row.id = i.event.id at hid
  have hrelay := hhist.relay
  rw [hid] at hrelay ⊢
  rcases hrelay with ⟨hnone, hcols⟩ | ⟨-, out, hout, -, hcols⟩
  · refine ⟨?_, fun _ => hnone⟩
    intro hstatus
    rw [hcols] at hstatus ⊢
    rw [effects_unscheduled h hhist.built hstatus]
    -- no relay, and a queue found full
    obtain ⟨p, capacity, req, draws, hb⟩ := (fresh_run h).fromRequest r i hhist.built
    obtain ⟨payload, -, -, -, hcases⟩ := buildEvent_ok hb
    have hstored : (i.row env).toRelayColumns = i.event.toRelayColumns.stored env.dropsTz := rfl
    rw [hstored] at hstatus ⊢
    rcases hcases with ⟨-, hrel, -⟩ | ⟨-, -, hrel, -⟩ | ⟨-, -, hrel, -⟩ <;> rw [hrel] at hstatus ⊢
    · exact ⟨rfl, rfl, fun hs => absurd hs nofun⟩
    · exact absurd rfl hstatus
    · exact ⟨rfl, rfl, fun hs => absurd (Option.some.inj hs) (by decide)⟩
  · rw [hcols]
    refine ⟨?_, ?_⟩
    · intro _
      rcases outcome_effects h hhist.built hout with ⟨rfl, hempty⟩ | ⟨tr, job, heq, htr⟩
      · rw [hempty]
        exact ⟨rfl, rfl, fun hs => absurd (Option.some.inj hs) (by decide)⟩
      · rw [heq]
        exact truthful_outcome env.dropsTz htr
    · intro hs
      exact absurd hs (FinalStatus.ne_scheduled (relayUpdateValues_final out env.dropsTz))

end

/-- The row of a delivery says that one POST was sent, and one was. -/
theorem rows_truthful_delivered :
    ∃ w os row, exec (step sampleEnv) World.initial (acceptActs ++ deliverActs) = some (w, os) ∧
      row ∈ w.store.rows ∧ row.relayStatus = some "success" ∧ (effects row.id os).countP Effect.isPost = 1 := by
  have hrun : (exec (step sampleEnv) World.initial (acceptActs ++ deliverActs)).map (fun r =>
      r.1.store.rows.map (fun e => (e.relayStatus, e.relayAttempts))) = some [(some "success", 1)] := by
    decide +kernel
  obtain ⟨w, os, row, h, hrow, hcols⟩ := exec_row hrun
  obtain ⟨hstatus, hattempts⟩ := Prod.mk.injEq .. ▸ hcols
  have hfinal : row.relayStatus ≠ some "scheduled" := by
    rw [hstatus]
    decide
  have htruthful := (rows_truthful (Run.of_exec h) row hrow).1 hfinal
  exact ⟨w, os, row, h, hrow, hstatus, htruthful.attempts.symm.trans hattempts⟩

end WebhookRelay
