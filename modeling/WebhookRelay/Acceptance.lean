import WebhookRelay.Intake

/-
  Which valid webhooks are accepted. A request that passed the checks is
  followed from the event it builds to the end of its handler, through any
  steps of the other parties but a cleanup or a shutdown of its process.

  `valid_webhook_accepted` says exactly when it is answered 200: always, except
  when its payload nests deeper than `json.dumps` can write at the flush, or when
  its Idempotency-Key header is present and empty and its source has already
  stored an event with the empty key. The INSERT writes the empty key as a key
  like any other, and the recovery takes it for no key.
-/
namespace WebhookRelay

open Py Transition

/-- The steps admitted while a request of process `p` is under way. -/
def Undisturbed (p : Nat) : Act → Prop
  | .cleanup _ => False
  | .shutdown p' => p' ≠ p
  | _ => True

/-- The steps a handler has still to do, at most. -/
def Handler.stepsLeft : Handler → Nat
  | .active _ .inserting => 4
  | .active _ .counting => 3
  | .active _ .enqueuing => 2
  | .active _ .marking => 1
  | .active _ .recovering => 1
  | _ => 0

/-- The request was answered 200 with an event of its source: its own, or one
stored under its key. -/
def Accepted (w : World) (r : Nat) (req : Request) (draws : Draws) : Prop :=
  ∃ i resp, w.handlers r = .answered i resp ∧
    ∃ row ∈ w.store.rows, row.id = resp.eventId ∧ row.source = req.source ∧
      (row.id = draws.eventUuid.text ∨
        (row.idempotencyKey ≠ none ∧ row.idempotencyKey = req.header "idempotency-key"))

/-- The empty key is taken: the source has stored an event with it. -/
def EmptyKeyTaken (s : Store) (req : Request) : Prop :=
  req.header "idempotency-key" = some "" ∧
    ∃ row ∈ s.rows, row.source = req.source ∧ row.idempotencyKey = some ""

section

variable {env : Env} {w w' : World} {a : Act} {o : Obs} {as : List Act} {os : List Obs}

/-- A handler that exists moves only by its own steps. -/
theorem Move.handler_other (hm : Move env w a w' o) {r : Nat} (hne : w.handlers r ≠ .absent)
    (ha : a ≠ .handler r) : w'.handlers r = w.handlers r := by
  have other : ∀ r' h, r ≠ r' → Function.update w.handlers r' h r = w.handlers r :=
    fun r' h hr => Function.update_of_ne hr ..
  cases hm with
  | started | stopped | closed | began | beganLate | taken | worked | recorded | finished | dropped
  | idled | deleted => rfl
  | rejected hh | built hh _ _ =>
    apply other _ _
    intro heq
    obtain rfl := heq
    exact hne hh
  | inserted | conflict | lostInsert | replayed | lostLookup | countedRelay | countedOnly | enqueued
  | refused | uninitialised | marked =>
    apply other _ _
    intro heq
    obtain rfl := heq
    exact ha rfl

theorem Move.handler_active {r : Nat} (hm : Move env w (.handler r) w' o) :
    ∃ i ph, w.handlers r = .active i ph := by
  cases hm with
  | inserted hh | conflict hh | lostInsert hh | replayed hh | lostLookup hh | countedRelay hh
  | countedOnly hh | enqueued hh | refused hh | uninitialised hh | marked hh => exact ⟨_, _, hh⟩

theorem Move.row_stays (hm : Move env w a w' o) {p : Nat} (ha : Undisturbed p a) {row : Event}
    (hrow : row ∈ w.store.rows) : ∃ row' ∈ w'.store.rows, row'.toIntakeColumns = row.toIntakeColumns := by
  rcases hm.row_forth hrow with ⟨ids, rfl, -⟩ | h
  · cases hm
    exact ha.elim
  · exact h

theorem Undisturbed.no_shutdown {p : Nat} (ha : Undisturbed p a) : a ≠ .shutdown p := by
  intro heq
  obtain rfl := heq
  exact absurd rfl ha

/-- Without a shutdown a dispatcher stays initialised. -/
theorem Move.queue_stays (hm : Move env w a w' o) {p : Nat} (ha : a ≠ .shutdown p)
    (hq : (w.procs p).dispatcher.dispatchQueue.isSome) :
    (w'.procs p).dispatcher.dispatchQueue.isSome := by
  rcases hm.globals p with ⟨h, -⟩ | ⟨-, h⟩ | ⟨rfl, -⟩
  · rwa [h]
  · rw [h, Dispatcher.startup_running hq]
    exact hq
  · exact absurd rfl ha

/-! ## After the INSERT -/

/-- The columns of an event whose payload is an object can be written if the
payload nests within the limit. -/
theorem writable_iff {i : Intake} (h : ∃ items, i.event.payload = .obj items) :
    i.writable env = true ↔ i.event.payload.depth ≤ env.dumpsRoom := by
  rw [Intake.writable, Bool.and_eq_true, dumps_standard, dumps_standard, and_iff_left_iff_imp]
  intro hdepth
  obtain ⟨items, hitems⟩ := h
  rw [hitems] at hdepth
  exact (depth_headers _).trans (Nat.le_trans (Nat.succ_le_succ (Nat.zero_le _)) hdepth)

/-- The request's own row is stored, and its handler is on the way to a 200. -/
structure Storing (env : Env) (r : Nat) (i : Intake) (w : World) : Prop where
  handler : (∃ ph, w.handlers r = .active i ph ∧ ph ≠ .inserting ∧ ph ≠ .recovering) ∨
    ∃ resp, w.handlers r = .answered i resp ∧ resp.eventId = i.event.id
  row : ∃ row ∈ w.store.rows, row.toIntakeColumns = (i.row env).toIntakeColumns
  queue : (w.procs i.pid).dispatcher.dispatchQueue.isSome

/-- A row with the request's key is stored, and its handler finds it. -/
structure Replaying (r : Nat) (i : Intake) (w : World) : Prop where
  key : i.key ≠ ""
  row : ∃ row ∈ w.store.rows, row.source = i.event.source ∧
    row.idempotencyKey = i.event.idempotencyKey
  handler : w.handlers r = .active i .recovering ∨
    ∃ resp, w.handlers r = .answered i resp ∧ ∃ row ∈ w.store.rows, row.id = resp.eventId ∧
      row.source = i.event.source ∧ row.idempotencyKey = i.event.idempotencyKey

theorem Storing.step {r : Nat} {i : Intake} (hst : Storing env r i w) (ha : Undisturbed i.pid a)
    (hm : Move env w a w' o) : Storing env r i w' := by
  obtain ⟨row, hrow, hcols⟩ := hst.row
  obtain ⟨row', hrow', hcols'⟩ := hm.row_stays ha hrow
  refine ⟨?_, ⟨row', hrow', hcols'.trans hcols⟩, hm.queue_stays ha.no_shutdown hst.queue⟩
  by_cases hself : a = .handler r
  · subst hself
    rcases hst.handler with ⟨ph, hh, hni, hnr⟩ | ⟨resp, hh, -⟩
    · cases hm with
      | inserted hh' | conflict hh' | lostInsert hh' =>
        rw [hh] at hh'
        cases hh'
        exact absurd rfl hni
      | replayed hh' | lostLookup hh' =>
        rw [hh] at hh'
        cases hh'
        exact absurd rfl hnr
      | countedRelay hh' =>
        rw [hh] at hh'
        cases hh'
        exact .inl ⟨_, Function.update_self .., nofun, nofun⟩
      | refused hh' =>
        rw [hh] at hh'
        cases hh'
        exact .inl ⟨_, Function.update_self .., nofun, nofun⟩
      | countedOnly hh' | enqueued hh' | marked hh' =>
        rw [hh] at hh'
        cases hh'
        exact .inr ⟨_, Function.update_self .., rfl⟩
      | uninitialised hh' hq =>
        -- only a shutdown takes the queue away
        rw [hh] at hh'
        cases hh'
        have hsome := hst.queue
        rw [hq] at hsome
        cases hsome
    · obtain ⟨_, _, hactive⟩ := hm.handler_active
      rw [hh] at hactive
      cases hactive
  · have hne : w.handlers r ≠ .absent := by
      rcases hst.handler with ⟨ph, hh, -⟩ | ⟨resp, hh, -⟩ <;> rw [hh] <;> exact nofun
    rw [hm.handler_other hne hself]
    exact hst.handler

theorem Replaying.step {r : Nat} {i : Intake} (hre : Replaying r i w) (ha : Undisturbed i.pid a)
    (hm : Move env w a w' o) : Replaying r i w' := by
  -- short of a cleanup, a step keeps source and key of every row
  have stays : ∀ row ∈ w.store.rows, row.source = i.event.source →
      row.idempotencyKey = i.event.idempotencyKey → ∃ row' ∈ w'.store.rows, row'.id = row.id ∧
        row'.source = i.event.source ∧ row'.idempotencyKey = i.event.idempotencyKey := by
    intro row hrow hs hk
    obtain ⟨row', hrow', hcols⟩ := hm.row_stays ha hrow
    exact ⟨row', hrow', congrArg IntakeColumns.id hcols, (congrArg IntakeColumns.source hcols).trans hs,
      (congrArg IntakeColumns.idempotencyKey hcols).trans hk⟩
  obtain ⟨row, hrow, hs, hk⟩ := hre.row
  obtain ⟨row', hrow', -, hs', hk'⟩ := stays row hrow hs hk
  refine ⟨hre.key, ⟨row', hrow', hs', hk'⟩, ?_⟩
  by_cases hself : a = .handler r
  · subst hself
    rcases hre.handler with hh | ⟨resp, hh, -⟩
    · cases hm with
      | inserted hh' | conflict hh' | lostInsert hh' | countedRelay hh' | refused hh' | countedOnly hh'
      | enqueued hh' | marked hh' | uninitialised hh' =>
        rw [hh] at hh'
        cases hh'
      | replayed hh' hl =>
        rw [hh] at hh'
        cases hh'
        obtain ⟨hmem, hsource, hkey⟩ := Store.lookup_eq_some.mp hl
        exact .inr ⟨_, Function.update_self .., _, hmem, rfl, hsource, hkey.trans (Intake.key_some hre.key).symm⟩
      | lostLookup hh' hl =>
        rw [hh] at hh'
        cases hh'
        exact absurd ⟨hs, hk.trans (Intake.key_some hre.key)⟩ (Store.lookup_eq_none.mp hl row hrow)
    · obtain ⟨_, _, hactive⟩ := hm.handler_active
      rw [hh] at hactive
      cases hactive
  · have hne : w.handlers r ≠ .absent := by
      rcases hre.handler with hh | ⟨resp, hh, -⟩ <;> rw [hh] <;> exact nofun
    rw [hm.handler_other hne hself]
    rcases hre.handler with hh | ⟨resp, hh, row₁, hrow₁, hid₁, hs₁, hk₁⟩
    · exact .inl hh
    · obtain ⟨row₁', hrow₁', hid₁', hs₁', hk₁'⟩ := stays row₁ hrow₁ hs₁ hk₁
      exact .inr ⟨resp, hh, row₁', hrow₁', hid₁'.trans hid₁, hs₁', hk₁'⟩

/-- What the INSERT leads to: StatementError for a payload that cannot be written,
the request's own row, a row with its key, or IntegrityError for a taken empty
key. -/
theorem after_insert (h : Run (step env) World.initial as os w) {r : Nat} {i : Intake}
    (hh : w.handlers r = .active i .inserting)
    (hq : (w.procs i.pid).dispatcher.dispatchQueue.isSome) (hstep : step env w (.handler r) = some (w', o)) :
    (¬ i.writable env = true ∧ w'.handlers r = .failed i .statementError) ∨ i.writable env = true ∧
      ((Storing env r i w' ∧ ¬ w.store.Conflicts (i.row env)) ∨ Replaying r i w' ∨
        (w'.handlers r = .failed i .integrityError ∧ i.event.idempotencyKey = some "" ∧
          ∃ row ∈ w.store.rows, row.source = i.event.source ∧ row.idempotencyKey = some "")) := by
  -- the primary key cannot be the reason of a conflict
  have hconflict : w.store.Conflicts (i.row env) → i.event.idempotencyKey ≠ none ∧
      ∃ row ∈ w.store.rows, row.source = i.event.source ∧
        row.idempotencyKey = i.event.idempotencyKey := by
    intro h'
    obtain ⟨row, hrow, hid | hsame⟩ := h'
    · obtain ⟨r', row₀, hins, hcols⟩ := row_inserted h row hrow
      exact absurd ((congrArg IntakeColumns.id hcols).trans hid) (not_stored_inserting h hh r' row₀ hins)
    · exact ⟨hsame.2.2 ▸ hsame.1, row, hrow, hsame.2.1, hsame.2.2⟩
  by_cases hw : i.writable env = true
  · refine .inr ⟨hw, ?_⟩
    cases Move.of_step hstep with
    | inserted hh' hs =>
      rw [hh] at hh'
      cases hh'
      refine .inl ⟨⟨.inl ⟨_, Function.update_self .., nofun, nofun⟩, ?_, hq⟩, (Store.insert_rows hs).1⟩
      exact ⟨_, (Store.mem_insert hs).mpr (.inr rfl), rfl⟩
    | conflict hh' hs hkey =>
      rw [hh] at hh'
      cases hh'
      exact .inr (.inl ⟨hkey, (hconflict hs).2, .inl (Function.update_self ..)⟩)
    | lostInsert hh' hexc hlost =>
      rw [hh] at hh'
      cases hh'
      obtain ⟨hs, hkey⟩ := hlost hw
      obtain ⟨hne, row, hrow, hsource, hrkey⟩ := hconflict hs
      have hempty : i.event.idempotencyKey = some "" := by
        cases hi : i.event.idempotencyKey with
        | none => exact absurd hi hne
        | some k =>
          rw [hi] at hkey
          exact congrArg some hkey
      rw [if_pos hw] at hexc
      subst hexc
      exact .inr (.inr ⟨Function.update_self .., hempty, row, hrow, hsource, hrkey.trans hempty⟩)
    | replayed hh' | lostLookup hh' | countedRelay hh' | countedOnly hh' | enqueued hh' | refused hh'
    | uninitialised hh' | marked hh' =>
      rw [hh] at hh'
      cases hh'
  · simp only [step, stepHandler, hh, if_neg hw] at hstep
    cases hstep
    exact .inl ⟨hw, Function.update_self ..⟩

/-- A handler that has not ended can take a step, which brings it nearer to its
end. -/
theorem handler_progress {r : Nat} (hleft : 0 < (w.handlers r).stepsLeft) :
    ∃ w' o, step env w (.handler r) = some (w', o) ∧
      (w'.handlers r).stepsLeft < (w.handlers r).stepsLeft := by
  cases hh : w.handlers r with
  | absent | rejected _ | answered _ _ | failed _ _ =>
    rw [hh] at hleft
    cases hleft
  | active i ph =>
    have hsome : ∃ r', step env w (.handler r) = some r' := by
      simp only [step, stepHandler, hh]
      cases ph with
      | inserting =>
        simp only
        split
        · split
          · exact ⟨_, rfl⟩
          · split <;> exact ⟨_, rfl⟩
        · exact ⟨_, rfl⟩
      | recovering =>
        simp only
        split <;> exact ⟨_, rfl⟩
      | counting =>
        simp only
        split <;> exact ⟨_, rfl⟩
      | enqueuing =>
        simp only
        split <;> exact ⟨_, rfl⟩
      | marking => exact ⟨_, rfl⟩
    obtain ⟨⟨w', o⟩, hs⟩ := hsome
    refine ⟨w', o, hs, ?_⟩
    cases Move.of_step hs with
    | inserted hh' | conflict hh' | lostInsert hh' | replayed hh' | lostLookup hh' | countedRelay hh'
    | refused hh' | countedOnly hh' | enqueued hh' | marked hh' | uninitialised hh' =>
      rw [hh] at hh'
      cases hh'
      simp [Handler.stepsLeft]

/-- A run at whose end a handler is past its INSERT went through it. -/
theorem through_insert {r : Nat} {i : Intake} (h : Run (step env) w as os w')
    (hh : w.handlers r = .active i .inserting) :
    w'.handlers r = .active i .inserting ∨
      ∃ al ol t t' o ar or, as = al ++ .handler r :: ar ∧ os = ol ++ o :: or ∧
        Run (step env) w al ol t ∧ t.handlers r = .active i .inserting ∧
        step env t (.handler r) = some (t', o) ∧ Run (step env) t' ar or w' := by
  induction h with
  | nil => exact .inl hh
  | @snoc t t' as os a o h hs ih =>
    rcases ih with ht | ⟨al, ol, u, u', o', ar, or, rfl, rfl, hu, hhu, hsu, hu'⟩
    · by_cases ha : a = .handler r
      · subst ha
        exact .inr ⟨as, os, t, t', o, [], [], rfl, rfl, h, ht, hs, .nil⟩
      · refine .inl ?_
        rw [(Move.of_step hs).handler_other (by rw [ht]; exact nofun) ha, ht]
    · refine .inr ⟨al, ol, u, u', o', ar ++ [a], or ++ [o], ?_, ?_, hu, hhu, hsu, hu'.snoc hs⟩
      · rw [List.append_assoc, List.cons_append]
      · rw [List.append_assoc, List.cons_append]

/-- A handler that has ended stays as it is. -/
theorem ended_stays {r : Nat} (h : Run (step env) w as os w') (hpresent : w.handlers r ≠ .absent)
    (hend : ∀ i ph, w.handlers r ≠ .active i ph) : w'.handlers r = w.handlers r := by
  refine h.stable (I := fun t => t.handlers r = w.handlers r) (A := fun _ => True)
    (fun _ _ => trivial) rfl ?_
  intro t t' a o ht _ hs
  have ha : a ≠ .handler r := by
    intro heq
    obtain rfl := heq
    obtain ⟨j, ph, hj⟩ := (Move.of_step hs).handler_active
    exact hend j ph (ht ▸ hj)
  rw [(Move.of_step hs).handler_other (by rw [ht]; exact hpresent) ha, ht]

theorem failed_stays {r : Nat} {i : Intake} {exc : PyExc} (h : Run (step env) w as os w')
    (hh : w.handlers r = .failed i exc) : w'.handlers r = .failed i exc :=
  (ended_stays h (by rw [hh]; exact nofun) (by rw [hh]; exact fun _ _ => nofun)).trans hh

theorem Storing.accepted {r : Nat} {i : Intake} {req : Request} {draws : Draws} {payload : Json}
    (hst : Storing env r i w) (hi : i.event.toIntakeColumns = intakeColumns req payload draws)
    (hleft : (w.handlers r).stepsLeft = 0) : Accepted w r req draws := by
  obtain ⟨row, hrow, hcols⟩ := hst.row
  rcases hst.handler with ⟨ph, hh, -, -⟩ | ⟨resp, hh, hid⟩
  · rw [hh] at hleft
    cases ph <;> cases hleft
  · have hrid : row.id = (i.row env).id := congrArg IntakeColumns.id hcols
    have hrsource : row.source = (i.row env).source := congrArg IntakeColumns.source hcols
    have hsource : row.source = req.source := hrsource.trans (congrArg IntakeColumns.source hi)
    exact ⟨i, resp, hh, row, hrow, hrid.trans hid.symm, hsource,
      .inl (hrid.trans (congrArg IntakeColumns.id hi))⟩

theorem Replaying.accepted {r : Nat} {i : Intake} {req : Request} {draws : Draws} {payload : Json}
    (hre : Replaying r i w) (hi : i.event.toIntakeColumns = intakeColumns req payload draws)
    (hleft : (w.handlers r).stepsLeft = 0) : Accepted w r req draws := by
  rcases hre.handler with hh | ⟨resp, hh, row, hrow, hid, hsource, hkey⟩
  · rw [hh] at hleft
    cases hleft
  · have hk := Intake.key_some hre.key
    refine ⟨i, resp, hh, row, hrow, hid, hsource.trans (congrArg IntakeColumns.source hi), .inr ⟨?_, ?_⟩⟩
    · rw [hkey, hk]
      exact nofun
    · exact hkey.trans (congrArg IntakeColumns.idempotencyKey hi)

/-- **When a valid webhook is accepted.** In any reachable state, a request that
passes the checks builds its event; whatever the other parties do short of a
cleanup or a shutdown of its process, its handler comes to its end, and it ends
with a 200 for an event of its source if and only if its payload nests within the
limit of `json.dumps` and the empty key was not taken when its INSERT ran.
Otherwise it ends with StatementError or IntegrityError. -/
theorem valid_webhook_accepted {as₀ : List Act} {os₀ : List Obs} {w₀ : World} {p : Nat}
    {req : Request} {payload : Json} (r : Nat) (draws : Draws) (h₀ : Run (step env) World.initial as₀ os₀ w₀)
    (hr : w₀.handlers r = .absent)
    (hfresh : draws.requestUuid ∉ w₀.issued ∧ draws.eventUuid ∉ w₀.issued ∧
      draws.requestUuid ≠ draws.eventUuid)
    (hv : validateRequest env (env.settings p) req = .ok payload)
    (hq : (w₀.procs p).dispatcher.dispatchQueue.isSome) :
    ∃ w₁ i, step env w₀ (.request p r req draws) = some (w₁, .built r i) ∧
      ∀ as os w, Run (step env) w₁ as os w → (∀ a ∈ as, Undisturbed p a) →
        (0 < (w.handlers r).stepsLeft → ∃ w' o, step env w (.handler r) = some (w', o) ∧
          (w'.handlers r).stepsLeft < (w.handlers r).stepsLeft) ∧
        ((w.handlers r).stepsLeft = 0 → ∃ al ol t t' o ar or, as = al ++ .handler r :: ar ∧
          os = ol ++ o :: or ∧ Run (step env) w₁ al ol t ∧ t.handlers r = .active i .inserting ∧
          step env t (.handler r) = some (t', o) ∧ Run (step env) t' ar or w ∧
          (Accepted w r req draws ↔ payload.depth ≤ env.dumpsRoom ∧ ¬ EmptyKeyTaken t.store req) ∧
          (¬ payload.depth ≤ env.dumpsRoom → w.handlers r = .failed i .statementError) ∧
          (payload.depth ≤ env.dumpsRoom → EmptyKeyTaken t.store req →
            w.handlers r = .failed i .integrityError)) := by
  obtain ⟨b, hb⟩ : ∃ b, (w₀.procs p).dispatcher.hasCapacity = .ok b := by
    obtain ⟨q, hq⟩ := Option.isSome_iff_exists.mp hq
    exact ⟨_, by rw [Dispatcher.hasCapacity, hq]⟩
  obtain ⟨i, hi⟩ := buildEvent_of_valid b draws hv
  have hstep : step env w₀ (.request p r req draws) =
      some (({ w₀ with issued := draws.requestUuid :: draws.eventUuid :: w₀.issued }).setHandler r
        (.active i .inserting), .built r i) := by
    simp only [step, hr, hb, hi]
    rw [if_neg (by rintro (h | h | h); exacts [hfresh.1 h, hfresh.2.1 h, hfresh.2.2 h])]
  obtain ⟨payload', hv', rfl, hcols, -⟩ := buildEvent_ok hi
  obtain rfl : payload' = payload := Except.ok.inj (hv'.symm.trans hv)
  refine ⟨_, i, hstep, fun as os w h has => ⟨handler_progress, fun hleft => ?_⟩⟩
  rcases through_insert h (Function.update_self ..) with hh | ⟨al, ol, t, t', o, ar, or, rfl, rfl, ht, hh, hs, hw⟩
  · rw [hh] at hleft
    cases hleft
  · refine ⟨al, ol, t, t', o, ar, or, rfl, rfl, ht, hh, hs, hw, ?_⟩
    have hall : ∀ a ∈ al, Undisturbed i.pid a := fun a ha => has a (List.mem_append_left _ ha)
    have har : ∀ a ∈ ar, Undisturbed i.pid a :=
      fun a ha => has a (List.mem_append_right _ (List.mem_cons_of_mem _ ha))
    have hrun := (h₀.snoc hstep).append ht
    have hqt : (t.procs i.pid).dispatcher.dispatchQueue.isSome :=
      ht.history_of (I := fun u _ => (u.procs i.pid).dispatcher.dispatchQueue.isSome) hall hq
        (fun u _ u' a o hu ha hsu => (Move.of_step hsu).queue_stays ha.no_shutdown hu)
    have hkey : i.event.idempotencyKey = req.header "idempotency-key" :=
      congrArg IntakeColumns.idempotencyKey hcols
    have hsource : i.event.source = req.source := congrArg IntakeColumns.source hcols
    have hpayload : i.event.payload = payload' := congrArg IntakeColumns.payload hcols
    have hwritable : i.writable env = true ↔ payload'.depth ≤ env.dumpsRoom := by
      rw [← hpayload]
      obtain ⟨decoded, items, -, -, hobj⟩ := parseBody_ok (validateRequest_ok hv).2.2.2
      exact writable_iff ⟨items, hpayload ▸ hobj⟩
    have hnone : ∀ {exc}, w.handlers r = .failed i exc → ¬ Accepted w r req draws := by
      intro exc hfailed h'
      obtain ⟨j, resp, hans, -⟩ := h'
      rw [hfailed] at hans
      cases hans
    -- the INSERT decides: what it left behind holds until the handler's end
    rcases after_insert hrun hh hqt hs with ⟨hnw, hf⟩ | ⟨hyw, ⟨hst, hfree⟩ | hre | ⟨hf, hempty, htaken⟩⟩
    · rw [hwritable] at hnw
      have hend := failed_stays hw hf
      exact ⟨iff_of_false (hnone hend) (fun h => hnw h.1), fun _ => hend, fun h => absurd h hnw⟩
    · have hdepth := hwritable.mp hyw
      have hnot : ¬ EmptyKeyTaken t.store req := by
        intro h'
        obtain ⟨he, row, hrow, hrs, hrk⟩ := h'
        refine hfree ⟨row, hrow, .inr ⟨by rw [hrk]; exact Option.some_ne_none _, hrs.trans hsource.symm, ?_⟩⟩
        exact hrk.trans (hkey.trans he).symm
      have hend : Storing env r i w := hw.history_of (I := fun u _ => Storing env r i u) har hst
        (fun u _ u' a o hu ha hsu => hu.step ha (Move.of_step hsu))
      exact ⟨iff_of_true (hend.accepted hcols hleft) ⟨hdepth, hnot⟩, fun h => absurd hdepth h,
        fun _ h => absurd h hnot⟩
    · have hdepth := hwritable.mp hyw
      have hnot : ¬ EmptyKeyTaken t.store req := by
        intro h'
        obtain ⟨he, -⟩ := h'
        exact hre.key (by rw [Intake.key, hkey, he]; rfl)
      have hend : Replaying r i w := hw.history_of (I := fun u _ => Replaying r i u) har hre
        (fun u _ u' a o hu ha hsu => hu.step ha (Move.of_step hsu))
      exact ⟨iff_of_true (hend.accepted hcols hleft) ⟨hdepth, hnot⟩, fun h => absurd hdepth h,
        fun _ h => absurd h hnot⟩
    · have hend := failed_stays hw hf
      have hyes : EmptyKeyTaken t.store req := by
        obtain ⟨row, hrow, hrs, hrk⟩ := htaken
        exact ⟨hkey.symm.trans hempty, row, hrow, hrs.trans hsource, hrk⟩
      exact ⟨iff_of_false (hnone hend) (fun h => h.2 hyes), fun h => absurd (hwritable.mp hyw) h, fun _ _ => hend⟩

end

/-! ## Two concrete runs -/

def acceptedBody : String := "\x7b\"a\":1\x7d"

/-- Process 0 is up. -/
def upWorld : World :=
  World.initial.setProc 0 { client := true, dispatcher := Dispatcher.startup {} 1 1 }

theorem upWorld_run : Run (step sampleEnv) World.initial [.startup 0] [.started 0] upWorld :=
  .single rfl

theorem validate_sample {req : Request} (h : req.rawBody.length ≤ 1048576) :
    validateRequest sampleEnv (sampleEnv.settings 0) req = parseBody sampleEnv req.rawBody := by
  have hsize : ¬ (sampleEnv.settings 0).maxBodyBytes < req.rawBody.length := by
    have hmax : (sampleEnv.settings 0).maxBodyBytes = 1048576 := rfl
    omega
  have hsource : ¬ ((sampleEnv.settings 0).allowedSources ≠ [] ∧
      req.source ∉ (sampleEnv.settings 0).allowedSources) := fun hs => hs.1 rfl
  have hsecret : verifyWebhookSignature sampleEnv req.rawBody (req.header "x-webhook-signature")
      (sampleEnv.settings 0).webhookSecret = .ok () := if_pos rfl
  rw [validateRequest, if_neg hsource, enforceBodySizeLimit, if_neg hsize, hsecret]
  rfl

theorem acceptedBody_valid (key : Option String) :
    ∃ payload, validateRequest sampleEnv (sampleEnv.settings 0) (sampleRequest key acceptedBody) =
      .ok payload := by
  have hbody : (parseBody sampleEnv (asciiBytes acceptedBody.toList)).toOption.isSome = true := by
    decide +kernel
  have hraw : (sampleRequest key acceptedBody).rawBody = asciiBytes acceptedBody.toList := rfl
  rw [validate_sample (by rw [hraw]; decide), hraw]
  cases h : parseBody sampleEnv (asciiBytes acceptedBody.toList) with
  | ok payload => exact ⟨payload, rfl⟩
  | error exc =>
    rw [h] at hbody
    cases hbody

/-- A first request with a key is accepted. -/
theorem valid_webhook_accepted_first :
    ∃ as os w, Run (step sampleEnv) upWorld as os w ∧
      Accepted w 1 (sampleRequest (some "k") acceptedBody) (sampleDraws 1 10) := by
  obtain ⟨payload, hv⟩ := acceptedBody_valid (some "k")
  have hdepth : payload.depth ≤ sampleEnv.dumpsRoom := by
    have hbody : (parseBody sampleEnv (asciiBytes acceptedBody.toList)).toOption.map Json.depth = some 1 := by
      decide +kernel
    have hparse : parseBody sampleEnv (asciiBytes acceptedBody.toList) = .ok payload := (validateRequest_ok hv).2.2.2
    rw [hparse] at hbody
    rw [Option.some.inj hbody]
    decide
  obtain ⟨w₁, i, hstep, hall⟩ := valid_webhook_accepted (p := 0) 1 (sampleDraws 1 10) upWorld_run
    rfl ⟨List.not_mem_nil, List.not_mem_nil, by decide⟩ hv rfl
  have hrun : (exec (step sampleEnv) upWorld [.request 0 1 (sampleRequest (some "k") acceptedBody)
      (sampleDraws 1 10), .handler 1, .handler 1, .handler 1]).map
        (fun r => (r.1.handlers 1).stepsLeft) = some 0 := by
    decide +kernel
  obtain ⟨⟨w, os⟩, hexec, hleft⟩ := Option.map_eq_some_iff.mp hrun
  obtain ⟨t, o, os', hs, hrest, rfl⟩ := Run.exec_cons hexec
  rw [hstep] at hs
  cases hs
  obtain ⟨-, hend⟩ := hall _ _ w (Run.of_exec hrest) (by simp [Undisturbed])
  obtain ⟨al, ol, t, t', o, ar, or, -, -, -, -, -, -, hiff, -⟩ := hend hleft
  refine ⟨_, _, w, Run.of_exec hexec, hiff.mpr ⟨hdepth, ?_⟩⟩
  intro h'
  obtain ⟨hkey, -⟩ := h'
  exact absurd hkey (by decide)

def Handler.exc? : Handler → Option PyExc
  | .failed _ exc => some exc
  | _ => none

/-- Two requests with an empty key, one after the other: both are valid, and the
second ends with IntegrityError. -/
theorem empty_key_reused :
    (∃ payload, validateRequest sampleEnv (sampleEnv.settings 0)
      (sampleRequest (some "") acceptedBody) = .ok payload) ∧
    ∃ w₀ os₀ w os, exec (step sampleEnv) upWorld [.request 0 1 (sampleRequest (some "") acceptedBody)
        (sampleDraws 1 10), .handler 1, .handler 1, .handler 1] = some (w₀, os₀) ∧
      (w₀.procs 0).dispatcher.dispatchQueue.isSome ∧
      exec (step sampleEnv) w₀ [.request 0 2 (sampleRequest (some "") acceptedBody) (sampleDraws 2 20),
        .handler 2] = some (w, os) ∧
      (w.handlers 2).exc? = some .integrityError ∧
      ¬ Accepted w 2 (sampleRequest (some "") acceptedBody) (sampleDraws 2 20) := by
  refine ⟨acceptedBody_valid (some ""), ?_⟩
  have hrun : (exec (step sampleEnv) upWorld [.request 0 1 (sampleRequest (some "") acceptedBody)
      (sampleDraws 1 10), .handler 1, .handler 1, .handler 1]).bind (fun r =>
        (exec (step sampleEnv) r.1 [.request 0 2 (sampleRequest (some "") acceptedBody)
          (sampleDraws 2 20), .handler 2]).map (fun r' =>
            ((r.1.procs 0).dispatcher.dispatchQueue, (r'.1.handlers 2).exc?))) =
      some (some 0, some .integrityError) := by
    decide +kernel
  obtain ⟨⟨w₀, os₀⟩, h₀, hrest⟩ := Option.bind_eq_some_iff.mp hrun
  obtain ⟨⟨w, os⟩, h, hfacts⟩ := Option.map_eq_some_iff.mp hrest
  simp only [Prod.mk.injEq] at hfacts
  obtain ⟨hq, hexc⟩ := hfacts
  refine ⟨w₀, os₀, w, os, h₀, by rw [hq]; rfl, h, hexc, ?_⟩
  intro h'
  obtain ⟨i, resp, hans, -⟩ := h'
  rw [hans] at hexc
  cases hexc

end WebhookRelay
