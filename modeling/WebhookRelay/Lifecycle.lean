import WebhookRelay.Intake
import WebhookRelay.Ownership

/-
  The life of a row's relay columns. The status of a row is a function of the
  stage of its event, up to the choice a stage leaves (`Stage.Admits`), and a
  relay outcome is written only by the step that settles the stage. Since a
  token settles once, so does a row: it is inserted with one of three statuses,
  and the only change it ever sees is from "scheduled" to a final status
  (`relay_lifecycle`).
-/
namespace WebhookRelay

open Py Transition

/-- A status no relay update follows. -/
def FinalStatus (status : Option String) : Prop :=
  status = some "success" ∨ status = some "failed" ∨ status = some "skipped"

theorem FinalStatus.ne_scheduled {status : Option String} (h : FinalStatus status) :
    status ≠ some "scheduled" := by
  rcases h with rfl | rfl | rfl <;> decide

/-- The outcome a job or the queue-full branch records is final. -/
theorem relayUpdateValues_final (result : RelayOutcome) (dropsTz : Bool) :
    FinalStatus ((relayUpdateValues result).stored dropsTz).relayStatus := by
  change FinalStatus (some (if ¬ result.attempted then "skipped" else
    if result.success then "success" else "failed"))
  split
  · exact .inr (.inr rfl)
  · split
    · exact .inl rfl
    · exact .inr (.inl rfl)

/-- What may become of a row: nothing, or a scheduled relay gets its outcome. -/
structure Event.Evolves (row row' : Event) : Prop where
  intake : row'.toIntakeColumns = row.toIntakeColumns
  relay : row'.toRelayColumns = row.toRelayColumns ∨
    (row.relayStatus = some "scheduled" ∧ FinalStatus row'.relayStatus)

theorem Event.Evolves.refl (row : Event) : row.Evolves row := ⟨rfl, .inl rfl⟩

/-- A row that is not scheduled stays as it is. -/
theorem Event.Evolves.eq {row row' : Event} (h : row.Evolves row')
    (hs : row.relayStatus ≠ some "scheduled") : row' = row := by
  rcases h.relay with hr | ⟨hr, -⟩
  · obtain ⟨hi, -⟩ := h
    cases row
    cases row'
    cases hi
    cases hr
    rfl
  · exact absurd hr hs

/-! ## Statuses by stage -/

/-- The statuses a row can have while its event is at a stage. -/
def Stage.Admits : Stage → Option String → Prop
  | .unborn | .intake _ => fun _ => False
  | .idle => fun status => status = none ∨ status = some "skipped"
  | .held _ | .queued _ _ | .running _ _ _ | .stranded => fun status => status = some "scheduled"
  | .settled => FinalStatus

/-- The statuses of new rows. -/
theorem Intake.FromRequest.status {env : Env} {i : Intake} (h : i.FromRequest env) :
    i.event.relayStatus = none ∨ i.event.relayStatus = some "scheduled" ∨
      i.event.relayStatus = some "skipped" := by
  obtain ⟨p, capacity, req, draws, hb⟩ := h
  obtain ⟨payload, -, -, -, ⟨-, hr, -⟩ | ⟨-, -, hr, -⟩ | ⟨-, -, hr, -⟩⟩ := buildEvent_ok hb
  · exact .inl (congrArg RelayColumns.relayStatus hr)
  · exact .inr (.inl (congrArg RelayColumns.relayStatus hr))
  · exact .inr (.inr (congrArg RelayColumns.relayStatus hr))

theorem insertedStage_admits {row : Event} (r : Nat)
    (h : row.relayStatus = none ∨ row.relayStatus = some "scheduled" ∨
      row.relayStatus = some "skipped") : (insertedStage r row).Admits row.relayStatus := by
  unfold insertedStage
  split
  · next hs => exact hs
  · next hs =>
    rcases h with h | h | h
    · exact .inl h
    · exact absurd h hs
    · exact .inr h

/-- Recording an outcome settles the stage. -/
theorem stage_after_records {o : Obs} {id : String} {result : RelayOutcome}
    (h : o.records = some (id, result)) (st : Stage) : st.after id o = .settled := by
  unfold Obs.records at h
  split at h
  · cases h
    exact if_pos rfl
  · cases h
    exact if_pos rfl
  · cases h

/-- Nothing else does. -/
theorem stage_after_settled {o : Obs} {id : String} {st : Stage} (h : st.after id o = .settled)
    (ho : ∀ result, o.records ≠ some (id, result)) : st = .settled := by
  cases o with
  | started _ | stopped _ | closed _ | rejected _ _ | conflict _ | replayed _ _ | lost _ | counted _ _
  | refused _ | began _ _ | idled _ _ | deleted _ => exact h
  | built r i =>
    simp only [Stage.after] at h
    split at h
    · cases h
    · exact h
  | inserted r row =>
    simp only [Stage.after] at h
    split at h
    · rcases insertedStage_cases r row with hc | hc <;> rw [hc] at h <;> cases h
    · exact h
  | enqueued r p q job =>
    simp only [Stage.after] at h
    split at h
    · cases h
    · exact h
  | uninitialised r id' =>
    simp only [Stage.after] at h
    split at h
    · cases h
    · exact h
  | marked r id' =>
    simp only [Stage.after] at h
    split at h
    · next hid =>
      subst hid
      exact absurd rfl (ho _)
    · exact h
  | job p t id' eff =>
    simp only [Stage.after] at h
    split at h
    · next hid =>
      subst hid
      cases eff with
      | recorded out => exact absurd rfl (ho out)
      | called | resolved _ | posted _ | answered _ => exact h
      | taken =>
        cases st with
        | settled => rfl
        | unborn | intake _ | idle | held _ | queued _ _ | running _ _ _ | stranded => cases h
      | finished | dropped =>
        cases st with
        | settled => rfl
        | unborn | intake _ | idle | held _ | queued _ _ | running _ _ _ | stranded => cases h
    · exact h

section

variable {env : Env} {w w' : World} {a : Act} {o : Obs} {as as' : List Act} {os os' : List Obs}
  {id : String}

/-- What is recorded is recorded for a scheduled relay. -/
theorem records_before (ho : Owned w os) (hm : Move env w a w' o) {result : RelayOutcome}
    (h : o.records = some (id, result)) :
    (∃ r, stage id os = .held r) ∨ ∃ p q t, stage id os = .running p q t := by
  cases hm with
  | started _ | stopped _ _ | closed _ _ | rejected _ | built _ _ _ | inserted _ _ | conflict _ _ _
  | lostInsert _ _ _ | replayed _ _ | lostLookup _ _ | countedRelay _ _ _ | countedOnly _ _
  | enqueued _ _ _ | refused _ | uninitialised _ _ | began _ _ _ | beganLate _ _ _ | taken _ _ _
  | finished _ _ _ _ | dropped _ _ _ | idled _ _ | deleted => cases h
  | @marked r i hh =>
    cases h
    exact .inl ⟨r, ho.handler r i .marking hh⟩
  | @worked p t q job pos pos' input eff _ _ _ hr =>
    cases eff with
    | recorded out => exact absurd rfl (hr out)
    | taken | called | resolved _ | posted _ | answered _ | finished | dropped => cases h
  | @recorded p t q job out hs _ =>
    cases h
    have hst := ho.running p t q job _ (Dispatcher.jobAt_eq_some.mpr hs)
    rw [runningStage, if_neg Position.noConfusion] at hst
    exact .inr ⟨p, q, t, hst⟩

/-- A stage that moves without a record goes on admitting the same statuses. -/
theorem admits_next {st st' : Stage} {status : Option String} (hn : Stage.Next st st')
    (hs : st' ≠ .settled) (h : st.Admits status) : st'.Admits status := by
  cases hn with
  | build | insertPlain | insertScheduled => exact absurd h (fun hf => hf)
  | enqueue | lose | take | strand => exact h
  | mark | record => exact absurd rfl hs

/-- In every run, each row has a status its event's stage admits. -/
theorem statuses_run (h : Run (step env) World.initial as os w) :
    ∀ row ∈ w.store.rows, (stage row.id os).Admits row.relayStatus := by
  induction h with
  | nil =>
    intro row hrow
    cases hrow
  | @snoc t t' as os a o hrun hs ih =>
    intro row' hrow'
    have hm := Move.of_step hs
    rcases hm.row_back hrow' with ⟨r, rfl⟩ | ⟨row, hrow, hcols, hcase⟩
    · obtain ⟨i, hh, rfl, -⟩ := hm.inserted_inv
      have hb := built_of_active hrun hh
      rw [stage_snoc, Stage.after, if_pos rfl]
      exact insertedStage_admits r ((fresh_run hrun).fromRequest r i hb).status
    · have hid : row'.id = row.id := (congrArg IntakeColumns.id hcols).symm
      rw [hid]
      rcases hcase with ⟨rfl, hno⟩ | ⟨result, hrec, hrel⟩
      · have hold := ih row hrow
        rcases stage_moves hrun hs row.id with heq | hnext
        · rw [heq]
          exact hold
        · refine admits_next hnext ?_ hold
          -- only a record settles, and a settled stage has no next one
          intro hset
          rw [stage_snoc] at hset
          have hbefore := stage_after_settled hset hno
          rw [hbefore] at hnext
          cases hnext
      · rw [stage_snoc, stage_after_records hrec]
        have hst := congrArg RelayColumns.relayStatus hrel
        rw [show row'.relayStatus = _ from hst]
        exact relayUpdateValues_final result env.dropsTz

/-! ## One outcome for each event -/

/-- The outcomes recorded for an event. -/
def outcomes (id : String) (os : List Obs) : List RelayOutcome :=
  os.filterMap (fun o => o.records.bind (fun r => if r.1 = id then some r.2 else none))

theorem outcomes_snoc (id : String) (os : List Obs) (o : Obs) :
    outcomes id (os ++ [o]) =
      outcomes id os ++ (o.records.bind (fun r => if r.1 = id then some r.2 else none)).toList :=
  readings_snoc (fun o' : Obs => o'.records.bind (fun r => if r.1 = id then some r.2 else none)) os o

/-- An outcome has been recorded if and only if the event is settled, and then
only one. -/
theorem outcomes_run (h : Run (step env) World.initial as os w) (id : String) :
    (stage id os = .settled → ∃ result, outcomes id os = [result]) ∧
      (stage id os ≠ .settled → outcomes id os = []) := by
  induction h with
  | nil =>
    refine ⟨?_, fun _ => rfl⟩
    intro hs
    cases hs
  | @snoc t t' as os a o hrun hs ih =>
    have hm := Move.of_step hs
    by_cases hrec : ∃ result, o.records = some (id, result)
    · obtain ⟨result, hrec⟩ := hrec
      -- a relay with an outcome to come is scheduled, so it has none yet
      have hbefore : outcomes id os = [] := by
        apply ih.2
        rcases records_before (owned_run hrun) hm hrec with ⟨r, h⟩ | ⟨p, q, t, h⟩ <;> rw [h] <;>
          exact Stage.noConfusion
      have hafter : outcomes id (os ++ [o]) = [result] := by
        rw [outcomes_snoc, hbefore, hrec]
        simp
      refine ⟨fun _ => ⟨result, hafter⟩, ?_⟩
      intro hne
      rw [stage_snoc, stage_after_records hrec] at hne
      exact absurd rfl hne
    · have hsame : outcomes id (os ++ [o]) = outcomes id os := by
        rw [outcomes_snoc]
        cases hr : o.records with
        | none => simp
        | some r =>
          obtain ⟨id', result⟩ := r
          by_cases hid : id' = id
          · subst hid
            exact absurd ⟨result, hr⟩ hrec
          · simp [hid]
      have hiff : stage id (os ++ [o]) = .settled ↔ stage id os = .settled := by
        constructor
        · intro hset
          rw [stage_snoc] at hset
          exact stage_after_settled hset (fun result hr => hrec ⟨result, hr⟩)
        · intro hset
          rcases stage_moves hrun hs id with heq | hnext
          · rw [heq]
            exact hset
          · rw [hset] at hnext
            cases hnext
      rw [hsame, hiff, ne_eq, hiff]
      exact ih

theorem outcomes_length (h : Run (step env) World.initial as os w) (id : String) :
    (outcomes id os).length ≤ 1 := by
  by_cases hs : stage id os = .settled
  · obtain ⟨result, heq⟩ := (outcomes_run h id).1 hs
    rw [heq]
    exact Nat.le_refl 1
  · rw [(outcomes_run h id).2 hs]
    exact Nat.zero_le 1

/-! ## The life of a row -/

/-- An event that was inserted once is not inserted again. -/
theorem inserted_once (h : Run (step env) World.initial as os w) {r r' : Nat} {row row' : Event}
    (hm : Move env w a w' (.inserted r row)) (hi : .inserted r' row' ∈ os) : row'.id ≠ row.id := by
  obtain ⟨i, hh, rfl, -⟩ := hm.inserted_inv
  exact not_stored_inserting h hh r' row' hi

/-- Rows of one id at two moments of a run. -/
theorem row_evolves (h : Run (step env) World.initial as os w) (h' : Run (step env) w as' os' w') :
    ∀ row ∈ w.store.rows, ∀ row' ∈ w'.store.rows, row'.id = row.id → row.Evolves row' := by
  intro row hrow
  induction h' with
  | nil =>
    intro row' hrow' hid
    rw [Store.eq_of_id hrow' hrow hid]
    exact .refl row
  | @snoc t t' as' os' a o hrun hs ih =>
    intro row'' hrow'' hid
    have hwhole := h.append hrun
    have hm := Move.of_step hs
    rcases hm.row_back hrow'' with ⟨r, rfl⟩ | ⟨row', hrow', hcols, hcase⟩
    · -- a new row cannot have the id of one that was stored
      obtain ⟨r₀, row₀, hins, hcols₀⟩ := row_inserted h row hrow
      have hne := inserted_once hwhole hm (List.mem_append_left _ hins)
      exact absurd ((congrArg IntakeColumns.id hcols₀).trans hid.symm) hne
    · have hid' : row'.id = row''.id := congrArg IntakeColumns.id hcols
      have hev := ih row' hrow' (hid'.trans hid)
      rcases hcase with ⟨rfl, -⟩ | ⟨result, hrec, hrel⟩
      · exact hev
      · -- the stage says that the row was still scheduled
        have hsched : row'.relayStatus = some "scheduled" := by
          have hadm := statuses_run hwhole row' hrow'
          rcases records_before (owned_run hwhole) hm hrec with ⟨r, hst⟩ | ⟨p, q, t, hst⟩ <;>
            rw [hst] at hadm <;> exact hadm
        refine ⟨hcols.symm.trans hev.intake, .inr ⟨?_, ?_⟩⟩
        · rcases hev.relay with hsame | ⟨-, hfinal⟩
          · rw [← hsched]
            exact (congrArg RelayColumns.relayStatus hsame).symm
          · exact absurd hsched hfinal.ne_scheduled
        · rw [show row''.relayStatus = _ from congrArg RelayColumns.relayStatus hrel]
          exact relayUpdateValues_final result env.dropsTz

/-- A deleted event was inserted, and is not stored any more. -/
theorem deleted_gone (h : Run (step env) World.initial as os w) :
    ∀ ids, .deleted ids ∈ os → ∀ id ∈ ids,
      (∃ r row, .inserted r row ∈ os ∧ row.id = id) ∧ ∀ row ∈ w.store.rows, row.id ≠ id := by
  induction h with
  | nil =>
    intro ids hmem
    cases hmem
  | @snoc t t' as os a o hrun hs ih =>
    intro ids hmem id hid
    have hm := Move.of_step hs
    rcases List.mem_append.mp hmem with hmem | hmem
    · obtain ⟨⟨r, row₀, hins, hid₀⟩, hgone⟩ := ih ids hmem id hid
      refine ⟨⟨r, row₀, List.mem_append_left _ hins, hid₀⟩, ?_⟩
      intro row' hrow' hid'
      rcases hm.row_back hrow' with ⟨r', rfl⟩ | ⟨row, hrow, hcols, -⟩
      · exact inserted_once hrun hm hins (hid₀.trans hid'.symm)
      · exact hgone row hrow ((congrArg IntakeColumns.id hcols).trans hid')
    · cases List.mem_singleton.mp hmem
      obtain ⟨cutoff, rfl, hstore⟩ := hm.deleted_inv
      obtain ⟨e, he, rfl⟩ := List.mem_map.mp hid
      obtain ⟨hrow, hold⟩ := Store.mem_expired.mp he
      obtain ⟨r, row₀, hins, hcols⟩ := row_inserted hrun e hrow
      refine ⟨⟨r, row₀, List.mem_append_left _ hins, congrArg IntakeColumns.id hcols⟩, ?_⟩
      intro row' hrow' hid'
      rw [hstore] at hrow'
      obtain ⟨hrow'', hkept⟩ := Store.mem_deleteBefore.mp hrow'
      rw [Store.eq_of_id hrow'' hrow hid'] at hkept
      exact hkept hold

/-- A step changes a row only by recording an outcome of its event. -/
theorem row_changed (hm : Move env w a w' o) {row row' : Event} (hrow : row ∈ w.store.rows)
    (hrow' : row' ∈ w'.store.rows) (hid : row'.id = row.id) (hne : row' ≠ row) :
    ∃ result, o.records = some (row.id, result) := by
  rcases hm.row_back hrow' with ⟨r, rfl⟩ | ⟨row₀, hrow₀, hcols, hcase⟩
  · obtain ⟨i, -, -, hs⟩ := hm.inserted_inv
    exact absurd ⟨row, hrow, .inl hid.symm⟩ (Store.insert_rows hs).1
  · obtain rfl := Store.eq_of_id hrow₀ hrow ((congrArg IntakeColumns.id hcols).trans hid)
    rcases hcase with ⟨heq, -⟩ | ⟨result, hrec, -⟩
    · exact absurd heq.symm hne
    · exact ⟨result, hrec⟩

/-- Recording an outcome leaves the rows of other events, and the whole table if
the event is gone. -/
theorem records_frame (hm : Move env w a w' o) {result : RelayOutcome}
    (h : o.records = some (id, result)) :
    (∀ row, row.id ≠ id → (row ∈ w'.store.rows ↔ row ∈ w.store.rows)) ∧
      (w.store.get id = none → w'.store = w.store) := by
  rcases hm.store with ⟨-, hn⟩ | ⟨r, i, rfl, -, -⟩ | ⟨id', result', ho, hs⟩ | ⟨cutoff, rfl, -⟩
  · rw [hn] at h
    cases h
  · cases h
  · rw [ho] at h
    cases h
    rw [hs]
    refine ⟨?_, fun hgone => Store.update_absent _ hgone⟩
    intro row hne
    constructor
    · intro hrow
      obtain ⟨e, he, rfl⟩ := Store.mem_update.mp hrow
      rw [Store.setRelay_intake] at hne
      rwa [Store.setRelay, if_neg hne]
    · intro hrow
      exact Store.mem_update.mpr ⟨row, hrow, if_neg hne⟩
  · cases h

/-- The life of the rows in every run: rows are inserted unscheduled, scheduled
or skipped, change at most once, from scheduled to a final status, and only by
the one outcome recorded for their event, which touches nothing else; deleted
rows are gone for good. -/
theorem relay_lifecycle (h : Run (step env) World.initial as os w)
    (h' : Run (step env) w as' os' w') :
    (∀ r row, .inserted r row ∈ os →
      (row.relayStatus = none ∨ row.relayStatus = some "scheduled" ∨ row.relayStatus = some "skipped") ∧
        ∀ row' ∈ w.store.rows, row'.id = row.id → row.Evolves row') ∧
    (∀ row ∈ w.store.rows, ∃ r row₀, .inserted r row₀ ∈ os ∧ row₀.id = row.id) ∧
    (∀ row ∈ w.store.rows, ∀ row' ∈ w'.store.rows, row'.id = row.id → row.Evolves row') ∧
    (∀ id, (outcomes id os).length ≤ 1) ∧
    (∀ a o w₁, step env w a = some (w₁, o) →
      (∀ row ∈ w.store.rows, ∀ row' ∈ w₁.store.rows, row'.id = row.id → row' ≠ row →
        ∃ result, o.records = some (row.id, result)) ∧
      ∀ id result, o.records = some (id, result) →
        (∀ row, row.id ≠ id → (row ∈ w₁.store.rows ↔ row ∈ w.store.rows)) ∧
          (w.store.get id = none → w₁.store = w.store)) ∧
    ∀ ids, .deleted ids ∈ os → ∀ id ∈ ids, w'.store.get id = none := by
  refine ⟨?_, ?_, row_evolves h h', outcomes_length h, ?_, ?_⟩
  · intro r row hins
    obtain ⟨i, hb, hrow⟩ := built_of_inserted h hins
    refine ⟨?_, ?_⟩
    · have hstatus := ((fresh_run h).fromRequest r i hb).status
      rw [hrow]
      exact hstatus
    · -- the row is stored after the step that inserts it
      obtain ⟨l, m, hos⟩ := List.append_of_mem hins
      obtain ⟨al, a, ar, t, t', -, hl, hs, hr⟩ := (hos ▸ h : Run _ _ _ _ _).cut
      obtain ⟨-, -, -, hstore⟩ := (Move.of_step hs).inserted_inv
      exact row_evolves (hl.snoc hs) hr row ((Store.mem_insert hstore).mpr (.inr rfl))
  · intro row hrow
    obtain ⟨r, row₀, hins, hcols⟩ := row_inserted h row hrow
    exact ⟨r, row₀, hins, congrArg IntakeColumns.id hcols⟩
  · intro a o w₁ hs
    have hm := Move.of_step hs
    exact ⟨fun row hrow row' hrow' => row_changed hm hrow hrow', fun id result => records_frame hm⟩
  · intro ids hmem id hid
    obtain ⟨-, hgone⟩ := deleted_gone (h.append h') ids (List.mem_append_left _ hmem) id hid
    apply List.find?_eq_none.mpr
    intro row hrow
    simpa using hgone row hrow

end

/-! ## A delivery -/

/-- A request is accepted and its relay waits. -/
def acceptActs : List Act :=
  [.startup 0, .request 0 1 (sampleRequest none "\x7b\"a\":1\x7d") (sampleDraws 1 10), .handler 1,
    .handler 1, .handler 1]

/-- A worker delivers it. -/
def deliverActs : List Act :=
  [.begin 0 0, .take 0 0, .work 0 0 .call, .work 0 0 (.resolved (.addresses ["93.184.216.34"])),
    .work 0 0 (.post (sampleDraws 1 40).now ["93.184.216.34"] (some "93.184.216.34")),
    .work 0 0 (.answered (.response 200)), .work 0 0 .persist, .finish 0 0]

theorem relay_lifecycle_delivered :
    ∃ w os w' os' row row', exec (step sampleEnv) World.initial acceptActs = some (w, os) ∧
      exec (step sampleEnv) w deliverActs = some (w', os') ∧
      row ∈ w.store.rows ∧ row' ∈ w'.store.rows ∧ row.relayStatus = some "scheduled" ∧
      row'.relayStatus = some "success" ∧ row.Evolves row' := by
  have hrun : (exec (step sampleEnv) World.initial acceptActs).bind (fun r =>
      (exec (step sampleEnv) r.1 deliverActs).map (fun r' =>
        (r.1.store.rows.map (fun e => (e.id, e.relayStatus)),
          r'.1.store.rows.map (fun e => (e.id, e.relayStatus))))) =
      some ([((sampleDraws 1 10).eventUuid.text, some "scheduled")],
        [((sampleDraws 1 10).eventUuid.text, some "success")]) := by
    decide +kernel
  obtain ⟨⟨w, os⟩, h, hrest⟩ := Option.bind_eq_some_iff.mp hrun
  obtain ⟨⟨w', os'⟩, h', hfacts⟩ := Option.map_eq_some_iff.mp hrest
  simp only [Prod.mk.injEq] at hfacts
  obtain ⟨hbefore, hafter⟩ := hfacts
  obtain ⟨row, hrow, hrowEq⟩ := List.mem_map.mp (hbefore ▸ List.mem_singleton_self _)
  obtain ⟨row', hrow', hrowEq'⟩ := List.mem_map.mp (hafter ▸ List.mem_singleton_self _)
  simp only [Prod.mk.injEq] at hrowEq hrowEq'
  obtain ⟨-, -, hev, -⟩ := relay_lifecycle (Run.of_exec h) (Run.of_exec h')
  exact ⟨w, os, w', os', row, row', h, h', hrow, hrow', hrowEq.2, hrowEq'.2,
    hev row hrow row' hrow' (hrowEq'.1.trans hrowEq.1.symm)⟩

end WebhookRelay
