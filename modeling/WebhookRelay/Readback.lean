import WebhookRelay.Admission
import WebhookRelay.Consistency
import WebhookRelay.Reads

/-
  What is read back. An event is known to a reader by the request that built it
  and by the outcome recorded for it (`itemShown`, a function of the history);
  the row stores it through three encodings, of the outcome in the relay
  columns, of these in the API shape, and of UTC times in naive ones. What is
  proved:
    1. `RelayOutcome.Possible.readBack`: the mappings give back every outcome a
       job can end with;
    2. `readback`: in every run `get_event` returns what the history says, and
       `list_events` the same items;
    3. `cooperative_capacity`: when a handler is not interrupted by its own
       process, the queue does not fill up between its check and its offer.
-/
namespace WebhookRelay

open Py Transition

/-- The relay field of an event whose relay waits. -/
def scheduledRelayResult : RelayOutcome where
  attempted := false
  success := false
  reason := some "scheduled"

/-- The relay field the history gives to the event of an intake. -/
def relayShown (env : Env) (i : Intake) (os : List Obs) : Option RelayOutcome :=
  if (env.settings i.pid).targetUrl = "" then none
  else if i.queuePreFull then some queueFullRelayResult
  else some ((outcomes i.event.id os).headD scheduledRelayResult)

/-- What the history shows of an event: the data of its request, and its relay. -/
def itemShown (env : Env) (req : Request) (payload : Json) (draws : Draws) (i : Intake) (os : List Obs) :
    EventItem where
  eventId := draws.eventUuid.text
  source := req.source
  receivedAt := .ofUtc draws.now
  payload := payload
  headers := dictSet "x-request-id" (contextRequestId req draws) (safeHeaders req)
  requestId := contextRequestId req draws
  idempotencyKey := req.header "idempotency-key"
  relay := relayShown env i os

theorem lookup_dictSet (key value : String) (items : List (String × String)) :
    (dictSet key value items).lookup key = some value := by
  induction items with
  | nil => simp [dictSet]
  | cons item items ih =>
    rw [dictSet]
    split
    · simp
    · next hne =>
      rw [List.lookup_cons, beq_false_of_ne (Ne.symm hne)]
      exact ih

/-! ## Outcomes through the columns -/

theorem asUtc_stored (dropsTz : Bool) (now : Moment) :
    asUtc (storedDatetime dropsTz (.ofUtc now)) = .ofUtc now := by
  rw [asUtc, storedDatetime_utc]

/-- The columns give back every outcome that is recorded. -/
theorem RelayOutcome.Possible.readBack {out : RelayOutcome} (h : out.Possible) {dropsTz : Bool}
    {event : Event} (hv : event.toRelayColumns = (relayUpdateValues out).stored dropsTz) :
    eventRelayResult event = some out := by
  obtain ⟨columns, v⟩ := event
  cases hv
  cases h with
  | skipped _ => rfl
  | success _ _ | failed _ _ =>
    simp only [eventRelayResult, relayUpdateValues, Option.map_some, asUtc_stored]
    rfl

/-- The columns of a new row show no relay, a full queue, or a scheduled relay. -/
theorem eventRelayResult_new {dropsTz : Bool} {event : Event} :
    (event.toRelayColumns = noRelay.stored dropsTz → eventRelayResult event = none) ∧
      (event.toRelayColumns = preFullRelay.stored dropsTz →
        eventRelayResult event = some queueFullRelayResult) ∧
      (event.toRelayColumns = scheduledRelay.stored dropsTz →
        eventRelayResult event = some scheduledRelayResult) := by
  obtain ⟨columns, v⟩ := event
  refine ⟨?_, ?_, ?_⟩ <;> intro hv <;> cases hv <;> rfl

section

variable {env : Env} {w w' : World} {a : Act} {o : Obs} {as : List Act} {os : List Obs}

/-! ## Rows and their history -/

/-- A row with its history: it has the columns it was inserted with until an
outcome is recorded for it, and then those of the outcome. -/
structure RowHistory (env : Env) (os : List Obs) (row : Event) (r : Nat) (i : Intake) : Prop where
  built : .built r i ∈ os
  inserted : .inserted r (i.row env) ∈ os
  intake : row.toIntakeColumns = (i.row env).toIntakeColumns
  relay : (outcomes row.id os = [] ∧ row.toRelayColumns = (i.row env).toRelayColumns) ∨
    ((i.row env).relayStatus = some "scheduled" ∧ ∃ out, outcomes row.id os = [out] ∧ out.Possible ∧
      row.toRelayColumns = (relayUpdateValues out).stored env.dropsTz)

/-- What is recorded for an event is all that is. -/
theorem outcomes_eq_singleton (h : Run (step env) World.initial as os w) {id : String} {out : RelayOutcome}
    (hout : out ∈ outcomes id os) : outcomes id os = [out] := by
  obtain ⟨out', hone⟩ := List.length_eq_one_iff.mp
    (Nat.le_antisymm (outcomes_length h id) (List.length_pos_of_mem hout))
  rw [hone] at hout ⊢
  rw [List.mem_singleton.mp hout]

/-- An outcome recorded for the event comes last, and is the only one. -/
theorem outcomes_recorded (h : Run (step env) World.initial as os w) (hs : step env w a = some (w', o))
    {id : String} {out : RelayOutcome} (hrec : o.records = some (id, out)) :
    outcomes id os = [] ∧ outcomes id (os ++ [o]) = [out] := by
  have hafter : outcomes id (os ++ [o]) = outcomes id os ++ [out] := by
    rw [outcomes_snoc, hrec]
    simp
  have hone : outcomes id (os ++ [o]) = [out] := by
    apply outcomes_eq_singleton (h.snoc hs)
    rw [hafter]
    exact List.mem_append_right _ (List.mem_singleton_self out)
  refine ⟨?_, hone⟩
  rw [hafter] at hone
  exact List.append_cancel_right (hone.trans (List.nil_append [out]).symm)

/-- An outcome for another event, or none, leaves the event's outcomes. -/
theorem outcomes_other {id : String} (hrec : ∀ out, o.records ≠ some (id, out)) :
    outcomes id (os ++ [o]) = outcomes id os := by
  rw [outcomes_snoc]
  cases hr : o.records with
  | none => exact List.append_nil _
  | some rec =>
    have hne : rec.1 ≠ id := by
      intro heq
      obtain rfl := heq
      exact hrec rec.2 hr
    rw [Option.bind_some, if_neg hne]
    exact List.append_nil _

theorem rowHistory_run (h : Run (step env) World.initial as os w) :
    ∀ row ∈ w.store.rows, ∃ r i, RowHistory env os row r i := by
  induction h with
  | nil =>
    intro row hrow
    cases hrow
  | @snoc t t' as os a o hrun hs ih =>
    intro row' hrow'
    have hm := Move.of_step hs
    rcases hm.row_back hrow' with ⟨r, rfl⟩ | ⟨row, hrow, hcols, hcase⟩
    · -- an event about to be inserted has no outcome
      obtain ⟨i, hh, rfl, -⟩ := hm.inserted_inv
      have hstage := (owned_run hrun).handler r i .inserting hh
      have hnone : outcomes i.event.id os = [] := by
        apply (outcomes_run hrun i.event.id).2
        rw [hstage]
        exact Stage.noConfusion
      refine ⟨r, i, List.mem_append_left _ (built_of_active hrun hh),
        List.mem_append_right _ (List.mem_singleton_self _), rfl, .inl ⟨?_, rfl⟩⟩
      exact (outcomes_other (fun _ hrec => by cases hrec)).trans hnone
    · obtain ⟨r, i, hhist⟩ := ih row hrow
      have hid : row.id = row'.id := congrArg IntakeColumns.id hcols
      refine ⟨r, i, List.mem_append_left _ hhist.built, List.mem_append_left _ hhist.inserted,
        hcols.symm.trans hhist.intake, ?_⟩
      rw [← hid]
      rcases hcase with ⟨rfl, hno⟩ | ⟨result, hrec, hrel⟩
      · rw [outcomes_other hno]
        exact hhist.relay
      · obtain ⟨hnone, hone⟩ := outcomes_recorded hrun hs hrec
        -- what is recorded is recorded for a row that still has its first columns
        have hsame : row.toRelayColumns = (i.row env).toRelayColumns := by
          rcases hhist.relay with ⟨-, hsame⟩ | ⟨-, out, hout, -⟩
          · exact hsame
          · rw [hnone] at hout
            cases hout
        have hstatus : row.relayStatus = some "scheduled" := by
          have hadm := statuses_run hrun row hrow
          rcases records_before (owned_run hrun) hm hrec with ⟨r', hst⟩ | ⟨p, q, u, hst⟩ <;>
            rw [hst] at hadm <;> exact hadm
        refine .inr ⟨(congrArg RelayColumns.relayStatus hsame).symm.trans hstatus, result, hone, ?_, hrel⟩
        exact records_possible hrun hm hrec

/-- The relay field of a row is what its history shows. -/
theorem RowHistory.relayShown {row : Event} {r : Nat} {i : Intake} (hr : RowHistory env os row r i)
    (hi : i.FromRequest env) : eventRelayResult row = relayShown env i os := by
  have hid : row.id = (i.row env).id := congrArg IntakeColumns.id hr.intake
  change row.id = i.event.id at hid
  obtain ⟨p, capacity, req, draws, hb⟩ := hi
  obtain ⟨payload, -, rfl, -, hcases⟩ := buildEvent_ok hb
  obtain ⟨hplain, hfull, hsched⟩ := @eventRelayResult_new env.dropsTz row
  have hrelay := hr.relay
  rw [hid, show (i.row env).toRelayColumns = i.event.toRelayColumns.stored env.dropsTz from rfl] at hrelay
  -- only a scheduled relay has an outcome
  have hunscheduled : i.event.relayStatus ≠ some "scheduled" →
      row.toRelayColumns = i.event.toRelayColumns.stored env.dropsTz := by
    intro hne
    rcases hrelay with ⟨-, hsame⟩ | ⟨hst, -⟩
    · exact hsame
    · exact absurd hst hne
  unfold WebhookRelay.relayShown
  rcases hcases with ⟨ht, hcols, hpre⟩ | ⟨ht, -, hcols, hpre⟩ | ⟨ht, -, hcols, hpre⟩
  · rw [if_pos ht]
    rw [hcols] at hunscheduled
    exact hplain (hunscheduled nofun)
  · rw [if_neg ht, hpre, if_neg Bool.false_ne_true]
    rcases hrelay with ⟨hnone, hsame⟩ | ⟨-, out, hout, hpossible, hrel⟩
    · rw [hnone]
      rw [hcols] at hsame
      exact hsched hsame
    · rw [hout]
      exact hpossible.readBack hrel
  · rw [if_neg ht, hpre, if_pos rfl]
    rw [hcols] at hunscheduled
    exact hfull (hunscheduled (by decide))

/-! ## Handlers that are not interrupted -/

/-- The process whose code an action runs. -/
def Act.process (w : World) : Act → Option Nat
  | .startup p | .shutdown p | .closeClient p | .request p _ _ _ | .begin p _ | .take p _ | .work p _ _
  | .finish p _ | .cancelled p _ => some p
  | .handler r =>
    match w.handlers r with
    | .active i _ => some i.pid
    | _ => none
  | .cleanup _ => none

/-- `create_event` does not suspend after it has read the body: while a handler
is at work its process does nothing else. -/
def Cooperative (w : World) (a : Act) : Prop :=
  ∀ r i ph, w.handlers r = .active i ph → a.process w = some i.pid → a = .handler r

/-- A handler that will offer its job has seen that the queue has capacity, and
it still has. -/
def Attentive (env : Env) (w : World) : Prop :=
  ∀ r i ph, w.handlers r = .active i ph → (env.settings i.pid).targetUrl ≠ "" → i.queuePreFull = false →
    (w.procs i.pid).dispatcher.hasCapacity = .ok true

/-- An action of one process leaves the dispatchers of the others. -/
theorem Move.other_process (hm : Move env w a w' o) {p : Nat} (hp : a.process w ≠ some p) :
    (w'.procs p).dispatcher = (w.procs p).dispatcher := by
  have other : ∀ p' P, some p' ≠ some p → ((w.setProc p' P).procs p).dispatcher = (w.procs p).dispatcher := by
    intro p' P hne
    rcases w.setProc_cases p p' P with ⟨rfl, -⟩ | h
    · exact absurd rfl hne
    · rw [h]
  cases hm with
  | rejected | built | inserted | conflict | lostInsert | replayed | lostLookup | refused | uninitialised
  | marked | deleted => rfl
  | started | stopped | closed | began | beganLate | taken | worked | recorded | finished | dropped
  | idled => exact other _ _ hp
  | countedRelay hh | countedOnly hh | enqueued hh =>
    apply other _ _
    simp only [Act.process, hh] at hp
    exact hp

/-- A handler that goes on has left the dispatchers alone. -/
theorem Move.handler_keeps {r : Nat} {i : Intake} {ph : Phase} (hm : Move env w (.handler r) w' o)
    (hh : w'.handlers r = .active i ph) (p : Nat) : (w'.procs p).dispatcher = (w.procs p).dispatcher := by
  cases hm with
  | inserted | conflict | lostInsert | replayed | lostLookup | refused | uninitialised | marked => rfl
  | @countedRelay _ j | @countedOnly _ j =>
    rw [World.setHandler_procs]
    rcases w.setProc_cases p j.pid ((w.procs j.pid).receive j.event.source) with ⟨rfl, h⟩ | h
    · rw [h]
      rfl
    · rw [h]
  | enqueued =>
    rw [World.setHandler_handlers, Function.update_self] at hh
    cases hh

/-- A handler begins with the event its request builds. -/
theorem Move.newly_active {r : Nat} {i : Intake} {ph : Phase} (hm : Move env w a w' o)
    (ha : w.handlers r = .absent) (hh : w'.handlers r = .active i ph) :
    ∃ p req draws, buildEvent env p (w.procs p).dispatcher.hasCapacity req draws = .ok i ∧
      w'.procs = w.procs := by
  have self : ∀ r' h, Function.update w.handlers r' h r = .active i ph → r = r' ∧ h = .active i ph := by
    intro r' h hu
    by_cases hr : r = r'
    · subst hr
      rw [Function.update_self] at hu
      exact ⟨rfl, hu⟩
    · rw [Function.update_of_ne hr, ha] at hu
      cases hu
  cases hm with
  | started | stopped | closed | began | beganLate | taken | worked | recorded | finished | dropped | idled
  | deleted =>
    have hu : w.handlers r = .active i ph := hh
    rw [ha] at hu
    cases hu
  | rejected => cases (self _ _ hh).2
  | built _ _ hb =>
    cases (self _ _ hh).2
    exact ⟨_, _, _, hb, rfl⟩
  | inserted hh' | conflict hh' | lostInsert hh' | replayed hh' | lostLookup hh' | countedRelay hh'
  | countedOnly hh' | enqueued hh' | refused hh' | uninitialised hh' | marked hh' =>
    obtain ⟨rfl, -⟩ := self _ _ hh
    rw [ha] at hh'
    cases hh'

theorem attentive_step (hatt : Attentive env w) (hc : Cooperative w a) (hm : Move env w a w' o) :
    Attentive env w' := by
  intro r i ph hh ht hq
  by_cases hself : a = .handler r
  · subst hself
    obtain ⟨-, j, ph', hj, hnext⟩ := hm.handler_next
    obtain ⟨rfl, -⟩ := hnext i ph hh
    rw [hm.handler_keeps hh]
    exact hatt r i ph' hj ht hq
  by_cases habsent : w.handlers r = .absent
  · obtain ⟨p, req, draws, hb, hprocs⟩ := hm.newly_active habsent hh
    obtain ⟨payload, -, rfl, -, hcases⟩ := buildEvent_ok hb
    rw [hprocs]
    rcases hcases with ⟨ht', -⟩ | ⟨-, hcap, -⟩ | ⟨-, -, -, hq'⟩
    · exact absurd ht' ht
    · exact hcap
    · rw [hq] at hq'
      cases hq'
  · rw [hm.handler_other habsent hself] at hh
    rw [hm.other_process (fun hp => hself (hc r i ph hh hp))]
    exact hatt r i ph hh ht hq

/-- A queue with capacity takes the job. -/
theorem enqueue_of_capacity {d : Dispatcher RelayJob Position} (h : d.hasCapacity = .ok true)
    (job : RelayJob) : ∃ d', d.enqueue job = .ok (d', true) := by
  unfold Dispatcher.hasCapacity at h
  split at h
  · cases h
  · next q hq =>
    have hlt : ((d.queues q).items.length : Int) < (d.queues q).maxsize :=
      of_decide_eq_true (Except.ok.inj h)
    have hroom : (d.queues q).full = false := by
      unfold Queue.full
      split
      · rfl
      · exact decide_eq_false (Int.not_le.mpr hlt)
    refine ⟨d.setQueue q { d.queues q with
      items := (d.queues q).items ++ [job]
      unfinished := (d.queues q).unfinished + 1 }, ?_⟩
    simp only [Dispatcher.enqueue, hq, Queue.putNowait, hroom]
    rfl

/-- In a run in which no handler is interrupted by its own process, no job is
refused after the capacity check has passed. -/
theorem cooperative_capacity (h : Run (step env) World.initial as os w)
    (hc : Meets (step env) Cooperative World.initial as) :
    Attentive env w ∧ ∀ r, .refused r ∉ os := by
  induction h with
  | nil =>
    refine ⟨?_, fun r => List.not_mem_nil⟩
    intro r i ph hh
    cases hh
  | @snoc t t' as os a o hrun hs ih =>
    obtain ⟨hatt, hnone⟩ := ih hc.init
    have hm := Move.of_step hs
    refine ⟨attentive_step hatt (hc.last hrun) hm, ?_⟩
    intro r hmem
    rcases List.mem_append.mp hmem with hmem | hmem
    · exact hnone r hmem
    obtain rfl := List.mem_singleton.mp hmem
    cases hm with
    | @refused _ i hh =>
      have hshape := shape_run hrun r
      rw [hh] at hshape
      generalize trail r os = tr at hshape
      cases hshape with
      | enqueuing ht hq =>
        obtain ⟨d, hd⟩ := enqueue_of_capacity (hatt r i _ hh ht hq) (relayJob (env.settings i.pid) i.event)
        simp only [step, stepHandler, hh, hd, Option.some.injEq, Prod.mk.injEq] at hs
        cases hs.2

/-! ## Reading -/

/-- A job that was refused had a target and a queue with capacity; it is marked,
or its handler is about to mark it. -/
theorem refused_marked (h : Run (step env) World.initial as os w) {r : Nat} {i : Intake}
    (hb : .built r i ∈ os) (hr : .refused r ∈ os) :
    ((env.settings i.pid).targetUrl ≠ "" ∧ i.queuePreFull = false) ∧
      (w.handlers r = .active i .marking ∨ outcomes i.event.id os = [queueFullRelayResult]) := by
  have hshape := shape_run h r
  have hmem : Obs.refused r ∈ trail r os := mem_trail.mpr ⟨hr, rfl⟩
  have hbuilt : Obs.built r i ∈ trail r os := mem_trail.mpr ⟨hb, rfl⟩
  have hmarked : .marked r i.event.id ∈ trail r os → outcomes i.event.id os = [queueFullRelayResult] := by
    intro hmark
    exact outcomes_eq_singleton h (List.mem_filterMap.mpr ⟨_, (mem_trail.mp hmark).1, if_pos rfl⟩)
  generalize trail r os = tr at hshape hmem hbuilt hmarked
  generalize w.handlers r = hd at hshape
  cases hshape with
  | @marking j ht hq =>
    obtain rfl : i = j := by simpa using hbuilt
    exact ⟨⟨ht, hq⟩, .inl rfl⟩
  | @marked j ht hq =>
    obtain rfl : i = j := by simpa using hbuilt
    exact ⟨⟨ht, hq⟩, .inr (hmarked (by simp))⟩
  | absent | rejected | inserting | recovering _ | counting | enqueuing _ _ | replayed _ _ _ | counted _
  | enqueued _ _ | lostInsert _ _ | lostLookup _ | uninitialised _ _ => simp at hmem

/-- What a job records is what `relay_event` came to on what it was answered. -/
theorem recorded_returned (h : Run (step env) World.initial as os w) {l m : List Obs} {p t : Nat} {id : String}
    {out : RelayOutcome} (hos : os = l ++ .job p t id (.recorded out) :: m) :
    ∃ job r i, JobOf env os p job r i ∧ i.event.id = id ∧ JobTrace env job (effects id l) (.persist out) := by
  obtain ⟨job, r, i, pos, pos', input, client, hjob, hid, htr, ht⟩ := job_of_effect h hos (if_pos rfl)
  refine ⟨job, r, i, hjob, ?_, ?_⟩
  · rw [← hid, hjob.job]
    rfl
  · cases ht
    exact htr

/-- A row is read as its history shows it. -/
theorem RowHistory.item {row : Event} {r p : Nat} {i : Intake} {capacity : Except PyExc Bool} {req : Request}
    {draws : Draws} (hr : RowHistory env os row r i) (hb : buildEvent env p capacity req draws = .ok i) :
    ∃ payload, parseBody env req.rawBody = .ok payload ∧
      eventItem row = itemShown env req payload draws i os := by
  obtain ⟨payload, hvalid, -, hcols, -⟩ := buildEvent_ok hb
  have hrow : row.toIntakeColumns = { intakeColumns req payload draws with
      receivedAt := storedDatetime env.dropsTz (.ofUtc draws.now) } := by
    rw [hr.intake, ← show i.event.receivedAt = .ofUtc draws.now from congrArg IntakeColumns.receivedAt hcols,
      ← hcols]
    rfl
  refine ⟨payload, (validateRequest_ok hvalid).2.2.2, ?_⟩
  simp only [eventItem, itemShown, hrow, asUtc_stored, hr.relayShown ⟨p, capacity, req, draws, hb⟩]
  rfl

/-- **Readback.** In every run, `get_event` returns for every stored event the
data of the request that built it, and the relay its history shows; that is the
queue-full outcome for a job that was refused, once its handler has marked it,
and what `relay_event` came to for one that was run. The columns give back
every outcome `relay_event` can come to, and a page shows what `get_event`
returns. Unless a handler is interrupted by its own process, the queue is full
for a job only if it was when its event was built. -/
theorem readback (h : Run (step env) World.initial as os w) :
    (∀ row ∈ w.store.rows, ∃ al ar ol t p r req draws i payload item,
      as = al ++ .request p r req draws :: ar ∧ Run (step env) World.initial al ol t ∧
      buildEvent env p (t.procs p).dispatcher.hasCapacity req draws = .ok i ∧
      .built r i ∈ os ∧ .inserted r (i.row env) ∈ os ∧ parseBody env req.rawBody = .ok payload ∧
      item = itemShown env req payload draws i os ∧ item.eventId = row.id ∧
      getEvent w.store row.id = .ok item ∧ item.headers.lookup "x-request-id" = some item.requestId ∧
      (.refused r ∈ os → w.handlers r = .active i .marking ∨ item.relay = some queueFullRelayResult)) ∧
    (∀ l m p t id out, os = l ++ .job p t id (.recorded out) :: m →
      outcomes id os = [out] ∧ ∃ job r i, JobOf env os p job r i ∧ i.event.id = id ∧
        JobTrace env job (effects id l) (.persist out)) ∧
    (∀ job tr out, JobTrace env job tr (.persist out) → ∀ dropsTz event,
      event.toRelayColumns = (relayUpdateValues out).stored dropsTz → eventRelayResult event = some out) ∧
    (∀ coll limit cursor source page, listEvents env coll w.store limit cursor source = .ok page →
      ∀ item ∈ page.events, getEvent w.store item.eventId = .ok item) ∧
    (Meets (step env) Cooperative World.initial as → ∀ r, .refused r ∉ os) := by
  refine ⟨?_, ?_, ?_, ?_, ?_⟩
  · intro row hrow
    obtain ⟨r, i, hhist⟩ := rowHistory_run h row hrow
    obtain ⟨al, ar, ol, t, p, req, draws, has, hl, hb⟩ := arrival_of_built h hhist.built
    obtain ⟨payload, hparse, hitem⟩ := hhist.item hb
    refine ⟨al, ar, ol, t, p, r, req, draws, i, payload, eventItem row, has, hl, hb, hhist.built,
      hhist.inserted, hparse, hitem, rfl, getEvent_row hrow, ?_, ?_⟩
    · rw [hitem]
      exact lookup_dictSet ..
    · intro hrefused
      obtain ⟨⟨ht, hq⟩, hmarked⟩ := refused_marked h hhist.built hrefused
      apply hmarked.imp_right
      intro hone
      change eventRelayResult row = _
      rw [hhist.relayShown ⟨p, _, req, draws, hb⟩, relayShown, if_neg ht, hq, hone]
      rfl
  · intro l m p t id out hos
    refine ⟨?_, recorded_returned h hos⟩
    apply outcomes_eq_singleton h
    rw [hos]
    exact List.mem_filterMap.mpr ⟨_, List.mem_append_right _ List.mem_cons_self, if_pos rfl⟩
  · intro job tr out htr dropsTz event hv
    exact RelayOutcome.Possible.readBack htr.sound hv
  · intro coll limit cursor source page hpage
    exact listEvents_items hpage
  · exact fun hc => (cooperative_capacity h hc).2

end

/-- An event that was delivered is read with the outcome of its relay. -/
theorem readback_delivered :
    ∃ w os row item, exec (step sampleEnv) World.initial (acceptActs ++ deliverActs) = some (w, os) ∧
      row ∈ w.store.rows ∧ getEvent w.store row.id = .ok item ∧
      item.headers.lookup "x-request-id" = some item.requestId ∧ item.relay.map (fun out => out.statusCode) =
        some (some 200) := by
  have hrun : (exec (step sampleEnv) World.initial (acceptActs ++ deliverActs)).map (fun r =>
      r.1.store.rows.map (fun e => (eventItem e).relay.map (fun out => out.statusCode))) =
        some [some (some 200)] := by
    decide +kernel
  obtain ⟨w, os, row, h, hrow, hcode⟩ := exec_row hrun
  obtain ⟨-, -, -, -, -, -, -, -, -, -, item, -, -, -, -, -, -, -, -, hget, hid, -⟩ :=
    (readback (Run.of_exec h)).1 row hrow
  refine ⟨w, os, row, item, h, hrow, hget, hid, ?_⟩
  rw [getEvent_row hrow] at hget
  cases hget
  exact hcode

end WebhookRelay
