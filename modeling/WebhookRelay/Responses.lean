import WebhookRelay.Readback

/-
  The response of `create_event` and the row behind it. `create_event` answers
  from the event it holds in memory, which its transactions have written to the
  table one by one. What is proved:
    1. `RowHistory.unique` and `Answers.history`: when `create_event` answers,
       the row is the stored form of that event;
    2. `preFull_event`: the event built with a full queue is the scheduled event
       with the queue-full outcome applied, and `insert_update` makes one INSERT
       of an INSERT and an UPDATE;
    3. `create_response_agrees`: what this comes to in every run.
-/
namespace WebhookRelay

open Py Transition

/-- The fields of an item that a create response has. -/
def EventItem.response (item : EventItem) : CreateWebhookResponse where
  eventId := item.eventId
  receivedAt := item.receivedAt
  relay := item.relay

/-- Two intakes of one request in one process, with the same uuids and clock
reading; the dispatcher may have told them different things. -/
def Intake.SameDraws (env : Env) (i j : Intake) : Prop :=
  ∃ p c c' req draws, buildEvent env p c req draws = .ok i ∧ buildEvent env p c' req draws = .ok j

/-- A run that ends with the step that answers request `r`, with the event the
request has built. -/
structure Answers (env : Env) (os : List Obs) (w : World) (r : Nat) (i : Intake)
    (resp : CreateWebhookResponse) : Prop where
  ended : ∃ as t ol o, Run (step env) World.initial as ol t ∧ step env t (.handler r) = some (w, o) ∧
    os = ol ++ [o] ∧ ∀ row, o ≠ .replayed r row
  answered : w.handlers r = .answered i resp

/-! ## Events in memory and in the table -/

theorem Event.ext_columns {a b : Event} (h : a.toIntakeColumns = b.toIntakeColumns)
    (h' : a.toRelayColumns = b.toRelayColumns) : a = b := by
  cases a
  cases b
  cases h
  cases h'
  rfl

/-- An event with its times in UTC is read from the table as from memory. -/
theorem eventItem_stored {event : Event} {now : Moment} (hnow : event.receivedAt = .ofUtc now)
    (hnone : event.relayLastAttemptAt = none) (dropsTz : Bool) :
    (eventItem (event.stored dropsTz)).response = createResponse event := by
  have hreceived : asUtc (event.stored dropsTz).receivedAt = asUtc event.receivedAt := by
    calc asUtc (storedDatetime dropsTz event.receivedAt)
        = .ofUtc now := by rw [hnow, asUtc_stored]
      _ = asUtc event.receivedAt := by rw [hnow, asUtc, Datetime.utc_ofUtc]
  have hrelay : eventRelayResult (event.stored dropsTz) = eventRelayResult event := by
    simp only [eventRelayResult, Event.stored, RelayColumns.stored, hnone, Option.map_none]
  simp only [EventItem.response, eventItem, createResponse, hreceived, hrelay]
  rfl

/-- Inserting an event with other relay columns is inserting it and updating the
row. -/
theorem Store.insert_update (s : Store) (e : Event) (v : RelayColumns) :
    s.insert { e with toRelayColumns := v } = (s.insert e).map (fun s' => s'.update e.id v) := by
  unfold Store.insert
  by_cases hc : s.Conflicts e
  · rw [dif_pos hc, dif_pos (show s.Conflicts { e with toRelayColumns := v } from hc)]
    rfl
  · rw [dif_neg hc, dif_neg (show ¬ s.Conflicts { e with toRelayColumns := v } from hc), Option.map_some]
    apply congrArg some
    apply Store.ext_rows
    have hrows : s.rows.map (setRelay e.id v) = s.rows := by
      rw [List.map_congr_left (g := id), List.map_id]
      intro row hrow
      exact if_neg (fun hid => hc ⟨row, hrow, .inl hid⟩)
    calc s.rows ++ [{ e with toRelayColumns := v }]
        = s.rows.map (setRelay e.id v) ++ [setRelay e.id v e] := by rw [hrows, setRelay, if_pos rfl]
      _ = (s.rows ++ [e]).map (setRelay e.id v) := by rw [List.map_append, List.map_singleton]

/-- The event of a request whose queue was found full is the event it would have
scheduled, once the queue-full outcome is applied to it. -/
theorem preFull_event {env : Env} {i j : Intake} (hsame : i.SameDraws env j) (hi : i.queuePreFull = true) :
    i.event = applyRelayResult j.event queueFullRelayResult := by
  obtain ⟨p, c, c', req, draws, hbi, hbj⟩ := hsame
  obtain ⟨payload, hvalid, -, hcols, hcases⟩ := buildEvent_ok hbi
  obtain ⟨payload', hvalid', -, hcols', -⟩ := buildEvent_ok hbj
  obtain rfl : payload = payload' := Except.ok.inj (hvalid.symm.trans hvalid')
  have hintake : i.event.toIntakeColumns = (applyRelayResult j.event queueFullRelayResult).toIntakeColumns :=
    hcols.trans hcols'.symm
  apply Event.ext_columns hintake
  obtain ⟨-, -, hpre⟩ | ⟨-, -, -, hpre⟩ | ⟨-, -, hrelay, -⟩ := hcases
  · rw [hi] at hpre
    cases hpre
  · rw [hi] at hpre
    cases hpre
  · rw [hrelay]
    rfl

section

variable {env : Env} {w w' : World} {o : Obs} {os : List Obs} {r : Nat} {i : Intake}
  {resp : CreateWebhookResponse}

/-! ## The answering step -/

/-- The row of an event is determined by its history. -/
theorem RowHistory.unique {row row' : Event} (h : RowHistory env os row r i) (h' : RowHistory env os row' r i) :
    row = row' := by
  have hintake : row.toIntakeColumns = row'.toIntakeColumns := h.intake.trans h'.intake.symm
  apply Event.ext_columns hintake
  have hid : row.id = row'.id := congrArg IntakeColumns.id hintake
  obtain ⟨hnone, hrel⟩ | ⟨-, out, hout, -, hrel⟩ := h.relay
  · obtain ⟨-, hrel'⟩ | ⟨-, out', hout', -, -⟩ := h'.relay
    · exact hrel.trans hrel'.symm
    · rw [← hid, hnone] at hout'
      cases hout'
  · obtain ⟨hnone', -⟩ | ⟨-, out', hout', -, hrel'⟩ := h'.relay
    · rw [hid, hnone'] at hout
      cases hout
    · rw [hid, hout'] at hout
      cases hout
      exact hrel.trans hrel'.symm

/-- The step that answers a request, other than with the event of another: the
event is as it was built, or the queue-full outcome is being recorded for it. -/
theorem Move.answers (hm : Move env w (.handler r) w' o) (ha : w'.handlers r = .answered i resp)
    (ho : ∀ row, o ≠ .replayed r row) :
    (∃ ph, w.handlers r = .active i ph ∧ (ph = .counting ∨ ph = .enqueuing) ∧ resp = createResponse i.event ∧
      o.records = none ∧ o ≠ .refused r) ∨
    (w.handlers r = .active i .marking ∧ o = .marked r i.event.id ∧
      resp = createResponse (applyRelayResult i.event queueFullRelayResult)) := by
  have self : ∀ {h : Handler}, Function.update w.handlers r h r = .answered i resp → h = .answered i resp := by
    intro h hu
    rwa [Function.update_self] at hu
  cases hm with
  | inserted | conflict | lostInsert | lostLookup | countedRelay | refused | uninitialised =>
    cases self ha
  | replayed => exact absurd rfl (ho _)
  | countedOnly hh =>
    cases self ha
    exact .inl ⟨.counting, hh, .inl rfl, rfl, rfl, nofun⟩
  | enqueued hh =>
    cases self ha
    exact .inl ⟨.enqueuing, hh, .inr rfl, rfl, rfl, nofun⟩
  | marked hh =>
    cases self ha
    exact .inr ⟨hh, rfl, rfl⟩

/-- A built event has its time in UTC, and no relay attempt. -/
theorem Intake.FromRequest.times (hi : i.FromRequest env) :
    (∃ now, i.event.receivedAt = .ofUtc now) ∧ i.event.relayLastAttemptAt = none := by
  refine ⟨hi.receivedAt, ?_⟩
  obtain ⟨p, capacity, req, draws, hb⟩ := hi
  obtain ⟨payload, -, -, -, hcases⟩ := buildEvent_ok hb
  obtain ⟨-, hrelay, -⟩ | ⟨-, -, hrelay, -⟩ | ⟨-, -, hrelay, -⟩ := hcases
  · exact congrArg RelayColumns.relayLastAttemptAt hrelay
  · exact congrArg RelayColumns.relayLastAttemptAt hrelay
  · exact congrArg RelayColumns.relayLastAttemptAt hrelay

/-- What `create_event` holds in memory when it answers: the built event, or,
when the dispatcher has refused its job, that event with the queue-full outcome. -/
inductive Intake.Held (env : Env) (i : Intake) (r : Nat) (os : List Obs) : Event → Prop where
  | built (hr : .refused r ∉ os) : Held env i r os i.event
  | refused (hr : .refused r ∈ os) (ht : (env.settings i.pid).targetUrl ≠ "") (hq : i.queuePreFull = false) :
      Held env i r os (applyRelayResult i.event queueFullRelayResult)

theorem Intake.Held.times {event : Event} (h : i.Held env r os event) (hi : i.FromRequest env) :
    (∃ now, event.receivedAt = .ofUtc now) ∧ event.relayLastAttemptAt = none := by
  cases h with
  | built => exact hi.times
  | refused => exact ⟨hi.receivedAt, rfl⟩

/-- The relay field of an event that is held. -/
theorem Intake.Held.relay {event : Event} (h : i.Held env r os event) (hi : i.FromRequest env) :
    ((env.settings i.pid).targetUrl = "" ∧ eventRelayResult event = none) ∨
      ((env.settings i.pid).targetUrl ≠ "" ∧ (i.queuePreFull = true ∨ .refused r ∈ os) ∧
        eventRelayResult event = some queueFullRelayResult) ∨
      ((env.settings i.pid).targetUrl ≠ "" ∧ i.queuePreFull = false ∧ .refused r ∉ os ∧
        eventRelayResult event = some scheduledRelayResult) := by
  cases h with
  | built hr =>
    obtain ⟨p, capacity, req, draws, hb⟩ := hi
    obtain ⟨payload, -, rfl, -, hcases⟩ := buildEvent_ok hb
    obtain ⟨hplain, hfull, hscheduled⟩ := @eventRelayResult_new env.dropsTz i.event
    obtain ⟨ht, hrelay, -⟩ | ⟨ht, -, hrelay, hq⟩ | ⟨ht, -, hrelay, hq⟩ := hcases
    · exact .inl ⟨ht, hplain hrelay⟩
    · exact .inr (.inr ⟨ht, hq, hr, hscheduled hrelay⟩)
    · exact .inr (.inl ⟨ht, .inl hq, hfull hrelay⟩)
  | refused hr ht hq => exact .inr (.inl ⟨ht, .inr hr, rfl⟩)

/-- `create_event` answers from the event it holds, and the history of the row
is that of this event. -/
theorem Answers.history (h : Answers env os w r i resp) :
    ∃ as event, Run (step env) World.initial as os w ∧ i.Held env r os event ∧ resp = createResponse event ∧
      RowHistory env os (event.stored env.dropsTz) r i := by
  obtain ⟨⟨as, t, ol, o, hrun, hs, rfl, ho⟩, hanswered⟩ := h
  have hm := Move.of_step hs
  have hafter := hrun.snoc hs
  have hshape := shape_run hrun r
  obtain ⟨ph, hh, hph, hresp, hrec, hne⟩ | ⟨hh, rfl, hresp⟩ := hm.answers hanswered ho
  · have hins : .inserted r (i.row env) ∈ ol := by
      apply inserted_of_active hrun hh
      · obtain rfl | rfl := hph <;> exact nofun
      · obtain rfl | rfl := hph <;> exact nofun
    have hnone : outcomes i.event.id ol = [] := by
      apply (outcomes_run hrun i.event.id).2
      rw [(owned_run hrun).handler r i ph hh]
      obtain hst | hst | hst := i.stage_cases r ph <;> rw [hst] <;> exact nofun
    have hunrefused : .refused r ∉ ol ++ [o] := by
      intro hmem
      obtain hold | hnew := List.mem_append.mp hmem
      · have htrail : .refused r ∈ trail r ol := mem_trail.mpr ⟨hold, rfl⟩
        rw [hh] at hshape
        generalize trail r ol = tr at hshape htrail
        obtain rfl | rfl := hph <;> cases hshape <;> simp at htrail
      · exact hne (List.mem_singleton.mp hnew).symm
    refine ⟨_, i.event, hafter, .built hunrefused, hresp, ?_⟩
    refine ⟨List.mem_append_left _ (built_of_active hrun hh), List.mem_append_left _ hins, rfl, .inl ⟨?_, rfl⟩⟩
    exact (outcomes_other (fun out hout => by rw [hrec] at hout; cases hout)).trans hnone
  · have hb := built_of_active hrun hh
    have hins := inserted_of_active hrun hh nofun nofun
    obtain ⟨hfacts, hrefused⟩ : ((env.settings i.pid).targetUrl ≠ "" ∧ i.queuePreFull = false) ∧
        .refused r ∈ trail r ol := by
      rw [hh] at hshape
      generalize trail r ol = tr at hshape
      cases hshape with
      | marking ht hq => exact ⟨⟨ht, hq⟩, by simp⟩
    have hscheduled := ((fresh_run hrun).fromRequest r i hb).scheduled hfacts.1 hfacts.2
    have hstatus : (i.row env).relayStatus = some "scheduled" := congrArg RelayColumns.relayStatus hscheduled
    obtain ⟨-, hone⟩ : _ ∧ outcomes i.event.id (ol ++ [.marked r i.event.id]) = [queueFullRelayResult] :=
      outcomes_recorded hrun hs rfl
    have hmem : .refused r ∈ ol ++ [.marked r i.event.id] :=
      List.mem_append_left _ (mem_trail.mp hrefused).1
    refine ⟨_, _, hafter, .refused hmem hfacts.1 hfacts.2, hresp, ?_⟩
    exact ⟨List.mem_append_left _ hb, List.mem_append_left _ hins, rfl,
      .inr ⟨hstatus, queueFullRelayResult, hone, possible_queueFull, rfl⟩⟩

theorem RowHistory.id {row : Event} (h : RowHistory env os row r i) : row.id = i.event.id := by
  have hid : row.id = (i.row env).id := congrArg IntakeColumns.id h.intake
  exact hid

/-- The row of an event, while it is stored, is known from its history. -/
theorem RowHistory.row {as : List Act} {event : Event} (h : RowHistory env os event r i)
    (hrun : Run (step env) World.initial as os w) {row : Event} (hrow : row ∈ w.store.rows)
    (hid : row.id = i.event.id) : row = event := by
  obtain ⟨r', j, hrow'⟩ := rowHistory_run hrun row hrow
  obtain ⟨rfl, rfl⟩ := built_unique hrun hrow'.built h.built (hrow'.id.symm.trans hid)
  exact hrow'.unique h

/-- **The response is the stored row.** In every run, when `create_event`
answers with the event it has built, `get_event` returns at that moment an item
with the same id, time and relay, unless the event has been deleted; the relay is
none without a target, the queue-full outcome for a queue found full before or
after the INSERT, and scheduled otherwise. For one request and the same draws, a
queue found full before the INSERT leads to the same table, row and response as
one found full after it. -/
theorem create_response_agrees (h : Answers env os w r i resp) :
    (∀ item, getEvent w.store resp.eventId = .ok item → resp = item.response) ∧
    ((∀ ids, .deleted ids ∈ os → resp.eventId ∉ ids) → ∃ item, getEvent w.store resp.eventId = .ok item) ∧
    (((env.settings i.pid).targetUrl = "" ∧ resp.relay = none) ∨
      ((env.settings i.pid).targetUrl ≠ "" ∧ (i.queuePreFull = true ∨ .refused r ∈ os) ∧
        resp.relay = some queueFullRelayResult) ∨
      ((env.settings i.pid).targetUrl ≠ "" ∧ i.queuePreFull = false ∧ .refused r ∉ os ∧
        resp.relay = some scheduledRelayResult)) ∧
    ∀ j, i.SameDraws env j → i.queuePreFull = true →
      (∀ s : Store, s.insert (i.row env) =
        (s.insert (j.row env)).map (fun s' => persistRelay env s' j.event.id queueFullRelayResult)) ∧
      ∀ os' w' r' resp', Answers env os' w' r' j resp' → .refused r' ∈ os' →
        resp = resp' ∧ ∀ row ∈ w.store.rows, ∀ row' ∈ w'.store.rows, row.id = resp.eventId →
          row'.id = resp'.eventId → row = row' := by
  obtain ⟨as, event, hrun, hheld, rfl, hhist⟩ := h.history
  have hreq := (fresh_run hrun).fromRequest r i hhist.built
  obtain ⟨⟨now, hnow⟩, hnone⟩ := hheld.times hreq
  have hid : event.id = i.event.id := hhist.id
  refine ⟨?_, ?_, hheld.relay hreq, ?_⟩
  · intro item hitem
    unfold getEvent at hitem
    split at hitem
    · next row hget =>
      cases hitem
      obtain ⟨hrow, hrowId⟩ := Store.get_eq_some.mp hget
      obtain rfl := hhist.row hrun hrow (hrowId.trans hid)
      exact (eventItem_stored hnow hnone env.dropsTz).symm
    · cases hitem
  · intro hdel
    have hrowId : (i.row env).id = event.id := hid.symm
    obtain ⟨row, hget, -⟩ : ∃ row, w.store.get (i.row env).id = some row ∧ _ := by
      apply inserted_fetched hrun hhist.inserted
      intro ids hmem
      rw [hrowId]
      exact hdel ids hmem
    refine ⟨eventItem row, ?_⟩
    rw [hrowId] at hget
    show getEvent w.store event.id = .ok (eventItem row)
    rw [getEvent, hget]
  · intro j hsame hpre
    have hevent := preFull_event hsame hpre
    refine ⟨?_, ?_⟩
    · intro s
      calc s.insert (i.row env)
          = s.insert { j.row env with
              toRelayColumns := (relayUpdateValues queueFullRelayResult).stored env.dropsTz } := by
            rw [Intake.row, hevent]
            rfl
        _ = (s.insert (j.row env)).map (fun s' => persistRelay env s' j.event.id queueFullRelayResult) :=
            s.insert_update _ _
    · intro os' w' r' resp' h' hrefused
      obtain ⟨as', event', hrun', hheld', rfl, hhist'⟩ := h'.history
      -- the one holds what it built, the other has applied the outcome
      have hsameEvent : event = event' := by
        cases hheld with
        | built =>
          cases hheld' with
          | built hr => exact absurd hrefused hr
          | refused => exact hevent
        | refused hr ht hq =>
          rw [hpre] at hq
          cases hq
      subst hsameEvent
      have hid' : event.id = j.event.id := hhist'.id
      refine ⟨rfl, ?_⟩
      intro row hrow row' hrow' hrowId hrowId'
      exact (hhist.row hrun hrow (hrowId.trans hid)).trans (hhist'.row hrun' hrow' (hrowId'.trans hid')).symm

end

/-- Two requests find room for one job; the second is refused after its INSERT. -/
def refusedActs : List Act :=
  [.startup 0, .request 0 1 (sampleRequest none "\x7b\x7d") (sampleDraws 1 10),
    .request 0 2 (sampleRequest none "\x7b\x7d") (sampleDraws 2 20), .handler 1, .handler 1, .handler 1,
    .handler 2, .handler 2, .handler 2]

/-- The response of the refused request is its row. -/
theorem create_response_agrees_refused :
    ∃ os w i resp item, Answers sampleEnv os w 2 i resp ∧ getEvent w.store resp.eventId = .ok item ∧
      resp = item.response ∧ resp.relay.bind (fun out => out.reason) = some "relay_queue_full" := by
  have hrun : (exec (step sampleEnv) World.initial refusedActs).bind (fun r =>
      (step sampleEnv r.1 (.handler 2)).map (fun r' => (r'.2.records.isSome,
        (r'.1.handlers 2).response?.map (fun resp =>
          (resp.relay.bind (fun out => out.reason), (r'.1.store.get resp.eventId).isSome))))) =
      some (true, some (some "relay_queue_full", true)) := by
    decide +kernel
  obtain ⟨⟨t, ol⟩, hexec, hrest⟩ := Option.bind_eq_some_iff.mp hrun
  obtain ⟨⟨w, o⟩, hs, hfacts⟩ := Option.map_eq_some_iff.mp hrest
  simp only [Prod.mk.injEq] at hfacts
  obtain ⟨hrec, hview⟩ := hfacts
  obtain ⟨resp, hresp, hfields⟩ := Option.map_eq_some_iff.mp hview
  simp only [Prod.mk.injEq] at hfields
  obtain ⟨i, hi⟩ := Handler.response?_eq_some hresp
  have hown : ∀ row, o ≠ .replayed 2 row := by
    intro row ho
    rw [ho] at hrec
    cases hrec
  have hanswers : Answers sampleEnv (ol ++ [o]) w 2 i resp :=
    ⟨⟨refusedActs, t, ol, o, Run.of_exec hexec, hs, rfl, hown⟩, hi⟩
  obtain ⟨row, hrow⟩ := Option.isSome_iff_exists.mp hfields.2
  have hget : getEvent w.store resp.eventId = .ok (eventItem row) := by rw [getEvent, hrow]
  exact ⟨ol ++ [o], w, i, resp, eventItem row, hanswers, hget, (create_response_agrees hanswers).1 _ hget,
    hfields.1⟩

end WebhookRelay
