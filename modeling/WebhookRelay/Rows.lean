import WebhookRelay.Requests

/-
  What the steps of the service do to the rows of the events table: a row
  appears by an INSERT, keeps its intake columns for as long as it lives, has
  its relay columns written by the queue-full update or a job's outcome, and
  goes by a cleanup.
-/
namespace WebhookRelay

open Py Transition

/-- The relay outcome a step writes, and the event it is for. -/
def Obs.records : Obs → Option (String × RelayOutcome)
  | .marked _ id => some (id, queueFullRelayResult)
  | .job _ _ id (.recorded out) => some (id, out)
  | _ => none

section

variable {env : Env} {w w' : World} {a : Act} {o : Obs} {as : List Act} {os : List Obs}

/-- The four things a step can do to the table. -/
theorem Move.store (hm : Move env w a w' o) :
    (w'.store = w.store ∧ o.records = none) ∨
      (∃ r i, o = .inserted r (i.row env) ∧ w.handlers r = .active i .inserting ∧
        w.store.insert (i.row env) = some w'.store) ∨
      (∃ id result, o.records = some (id, result) ∧
        w'.store = persistRelay env w.store id result) ∨
      ∃ cutoff, o = .deleted ((w.store.expired cutoff).map (fun e => e.id)) ∧
        w'.store = w.store.deleteBefore cutoff := by
  cases hm with
  | started | stopped | closed | rejected | built | conflict | lostInsert | replayed | lostLookup
  | countedRelay | countedOnly | enqueued | refused | uninitialised | began | beganLate | taken
  | finished | dropped | idled => exact .inl ⟨rfl, rfl⟩
  | @inserted r i s hh hs => exact .inr (.inl ⟨r, i, rfl, hh, hs⟩)
  | marked _ => exact .inr (.inr (.inl ⟨_, _, rfl, rfl⟩))
  | recorded _ _ => exact .inr (.inr (.inl ⟨_, _, rfl, rfl⟩))
  | @worked p t q job pos pos' input eff hs hc ha hr =>
    refine .inl ⟨rfl, ?_⟩
    cases eff with
    | recorded out => exact absurd rfl (hr out)
    | taken | called | resolved _ | posted _ | answered _ | finished | dropped => rfl
  | deleted => exact .inr (.inr (.inr ⟨_, rfl, rfl⟩))

/-- Where a row comes from: it has just been inserted, or it was there with the
same intake columns, and with the same relay columns unless the step recorded
an outcome for it. -/
theorem Move.row_back (hm : Move env w a w' o) {row' : Event} (h : row' ∈ w'.store.rows) :
    (∃ r, o = .inserted r row') ∨
      ∃ row ∈ w.store.rows, row.toIntakeColumns = row'.toIntakeColumns ∧
        ((row = row' ∧ ∀ result, o.records ≠ some (row.id, result)) ∨
          ∃ result, o.records = some (row.id, result) ∧
            row'.toRelayColumns = (relayUpdateValues result).stored env.dropsTz) := by
  rcases hm.store with ⟨hs, hn⟩ | ⟨r, i, rfl, -, hs⟩ | ⟨id, result, ho, hs⟩ | ⟨cutoff, rfl, hs⟩
  · rw [hs] at h
    exact .inr ⟨row', h, rfl, .inl ⟨rfl, fun _ => by rw [hn]; exact nofun⟩⟩
  · rcases (Store.mem_insert hs).mp h with h | rfl
    · exact .inr ⟨row', h, rfl, .inl ⟨rfl, fun _ => nofun⟩⟩
    · exact .inl ⟨r, rfl⟩
  · rw [hs] at h
    obtain ⟨row, hrow, rfl⟩ := Store.mem_update.mp h
    refine .inr ⟨row, hrow, (Store.setRelay_intake ..).symm, ?_⟩
    by_cases hid : row.id = id
    · subst hid
      exact .inr ⟨result, ho, by rw [Store.setRelay, if_pos rfl]⟩
    · refine .inl ⟨by rw [Store.setRelay, if_neg hid], ?_⟩
      intro result' hr
      rw [ho] at hr
      cases hr
      exact hid rfl
  · rw [hs] at h
    exact .inr ⟨row', (Store.mem_deleteBefore.mp h).1, rfl, .inl ⟨rfl, fun _ => nofun⟩⟩

/-- What becomes of a row: a cleanup deletes it, or it stays with its intake
columns. -/
theorem Move.row_forth (hm : Move env w a w' o) {row : Event} (h : row ∈ w.store.rows) :
    (∃ ids, o = .deleted ids ∧ row.id ∈ ids) ∨
      ∃ row' ∈ w'.store.rows, row'.toIntakeColumns = row.toIntakeColumns := by
  rcases hm.store with ⟨hs, -⟩ | ⟨r, i, -, -, hs⟩ | ⟨id, result, -, hs⟩ | ⟨cutoff, rfl, hs⟩
  · exact .inr ⟨row, hs ▸ h, rfl⟩
  · exact .inr ⟨row, (Store.mem_insert hs).mpr (.inl h), rfl⟩
  · refine .inr ⟨_, ?_, Store.setRelay_intake id ((relayUpdateValues result).stored env.dropsTz) row⟩
    rw [hs]
    exact Store.mem_update.mpr ⟨row, h, rfl⟩
  · by_cases hc : row.receivedAt.utc < cutoff
    · exact .inl ⟨_, rfl, List.mem_map.mpr ⟨row, Store.mem_expired.mpr ⟨h, hc⟩, rfl⟩⟩
    · refine .inr ⟨row, ?_, rfl⟩
      rw [hs]
      exact Store.mem_deleteBefore.mpr ⟨h, hc⟩

/-- Every stored row was inserted, with the intake columns it has. -/
theorem row_inserted (h : Run (step env) World.initial as os w) :
    ∀ row ∈ w.store.rows, ∃ r row₀, .inserted r row₀ ∈ os ∧
      row₀.toIntakeColumns = row.toIntakeColumns := by
  induction h with
  | nil =>
    intro row hrow
    cases hrow
  | snoc _ hs ih =>
    intro row' hrow'
    rcases (Move.of_step hs).row_back hrow' with ⟨r, rfl⟩ | ⟨row, hrow, hcols, -⟩
    · exact ⟨r, row', List.mem_append_right _ (List.mem_singleton_self _), rfl⟩
    · obtain ⟨r, row₀, ho, hcols₀⟩ := ih row hrow
      exact ⟨r, row₀, List.mem_append_left _ ho, hcols₀.trans hcols⟩

/-- While a request is about to insert its event, no row has that event's id. -/
theorem not_stored_inserting (h : Run (step env) World.initial as os w) {r : Nat} {i : Intake}
    (hh : w.handlers r = .active i .inserting) : ∀ r' row, .inserted r' row ∈ os → row.id ≠ i.event.id := by
  intro r' row ho hid
  have hshape := shape_run h r
  rw [hh] at hshape
  obtain ⟨i', hb', rfl⟩ := built_of_inserted h ho
  obtain ⟨rfl, -⟩ := built_unique h hb' (built_of_active h hh) hid
  have hmem : Obs.inserted r' (i'.row env) ∈ trail r' os := mem_trail.mpr ⟨ho, rfl⟩
  generalize trail r' os = tr at hshape hmem
  cases hshape
  simp at hmem

theorem Move.inserted_inv {r : Nat} {row : Event} (hm : Move env w a w' (.inserted r row)) :
    ∃ i, w.handlers r = .active i .inserting ∧ row = i.row env ∧
      w.store.insert row = some w'.store := by
  cases hm with
  | inserted hh hs => exact ⟨_, hh, rfl, hs⟩

theorem Move.inserted_by {r : Nat} {row : Event} (hm : Move env w a w' (.inserted r row)) :
    a = .handler r := by
  cases hm with
  | inserted => rfl

theorem Move.deleted_inv {ids : List String} (hm : Move env w a w' (.deleted ids)) :
    ∃ cutoff, ids = (w.store.expired cutoff).map (fun e => e.id) ∧
      w'.store = w.store.deleteBefore cutoff := by
  cases hm with
  | deleted => exact ⟨_, rfl, rfl⟩

/-- A row that is not deleted keeps its intake columns through a run. -/
theorem row_kept {row : Event} (h : Run (step env) w as os w') (hrow : row ∈ w.store.rows)
    (hdel : ∀ ids, .deleted ids ∈ os → row.id ∉ ids) :
    ∃ row' ∈ w'.store.rows, row'.toIntakeColumns = row.toIntakeColumns := by
  refine h.stable (I := fun t => ∃ row' ∈ t.store.rows, row'.toIntakeColumns = row.toIntakeColumns)
    (A := fun o => ∀ ids, o = .deleted ids → row.id ∉ ids) ?_ ⟨row, hrow, rfl⟩ ?_
  · rintro o ho ids rfl
    exact hdel ids ho
  · rintro t t' a o ⟨row', hrow', hcols⟩ hA hs
    rcases (Move.of_step hs).row_forth hrow' with ⟨ids, rfl, hid⟩ | ⟨row'', hrow'', hcols'⟩
    · refine absurd ?_ (hA ids rfl)
      rwa [show row.id = row'.id from congrArg IntakeColumns.id hcols.symm]
    · exact ⟨row'', hrow'', hcols'.trans hcols⟩

/-- The only row of a computed run, found by something that is read off it. -/
theorem exec_row {β : Type} {f : Event → β} {x : β}
    (h : (exec (step env) World.initial as).map (fun s => s.1.store.rows.map f) = some [x]) :
    ∃ w os row, exec (step env) World.initial as = some (w, os) ∧ row ∈ w.store.rows ∧ f row = x := by
  obtain ⟨⟨w, os⟩, hexec, hrows⟩ := Option.map_eq_some_iff.mp h
  obtain ⟨row, hrow, hx⟩ := List.mem_map.mp (hrows ▸ List.mem_singleton_self x)
  exact ⟨w, os, row, hexec, hrow, hx⟩

end

end WebhookRelay
