import WebhookRelay.Fleet
import WebhookRelay.Reads

/-
  What kills can and cannot do. From the mirror of a run with crashes:
    1. `crashes_simulated`: what holds of the table and the POSTs in all runs of
       `step` holds with crashes too; so each event is still called once.
    2. `retries_agree`: whom a kill left without an answer may send the request
       again, with the same key: the answer names the event stored before.
    3. `crash_strands`: a relay that a process had accepted when it is killed has
       no further effect, on no process, and its row is left as it is until a
       cleanup; a request that it was handling is not answered.
-/
namespace WebhookRelay

open Py Transition

variable {env : Env} {s s' : Fleet} {cas cas' : List FleetAct} {cos cos' : List FleetObs}

/-! ## The table and the POSTs -/

/-- Every run with crashes looks like a run without any, in which each incarnation of
a process is a process of its own; so an event has one call of `relay_event` and
its POSTs, none after a success, with crashes too. -/
theorem crashes_simulated (h : Run (Fleet.step env) Fleet.initial cas cos s) :
    (∃ as os w, Run (step env) World.initial as os w ∧ w.store = s.world.store ∧
      os.map (Obs.renamed origin) = seen cos) ∧
    ∀ id, (effects id (seen cos)).countP Effect.isCall ≤ 1 ∧
      (effects id (seen cos)).countP Effect.isPost ≤ maxAttempts ∧
      (effects id (seen cos)).Pairwise (fun e e' => e.isSuccess = true → e'.isPost = false) := by
  obtain ⟨as, os, w, hw⟩ := mirror_run mirrors_initial h
  refine ⟨⟨as, os, w, hw.run, hw.mirrors.store, hw.view⟩, ?_⟩
  intro id
  rw [← hw.view, effects_renamed]
  exact effects_bounded hw.run id

/-- One relay waits, and another event is about to be inserted. -/
def busyActs : List Act :=
  acceptActs ++ [.request 0 2 (sampleRequest none "\x7b\"b\":2\x7d") (sampleDraws 2 20)]

/-- The process starts again, accepts a third event and delivers it. -/
def restartActs : List Act :=
  [.startup 0, .request 0 3 (sampleRequest none "\x7b\"c\":3\x7d") (sampleDraws 3 30), .handler 3, .handler 3,
    .handler 3] ++ deliverActs

theorem crashes_simulated_restarted :
    ∃ s cos, exec (Fleet.step sampleEnv) Fleet.initial
        (busyActs.map .act ++ .crash 0 :: restartActs.map .act) = some (s, cos) ∧
      (effects (sampleDraws 3 30).eventUuid.text (seen cos)).countP Effect.isPost = 1 ∧
      ∃ as os w, Run (step sampleEnv) World.initial as os w ∧ w.store = s.world.store ∧
        os.map (Obs.renamed origin) = seen cos := by
  have hrun : (exec (Fleet.step sampleEnv) Fleet.initial
      (busyActs.map .act ++ .crash 0 :: restartActs.map .act)).map (fun r =>
        (effects (sampleDraws 3 30).eventUuid.text (seen r.2)).countP Effect.isPost) = some 1 := by
    decide +kernel
  obtain ⟨⟨s, cos⟩, h, hposts⟩ := Option.map_eq_some_iff.mp hrun
  exact ⟨s, cos, h, hposts, (crashes_simulated (Run.of_exec h)).1⟩

/-! ## Retries -/

/-- Retries are idempotent across kills. Two requests with one key, decided by INSERT or
lookup in any incarnations of any processes, are decided on the same event, whether the
first was answered or not, unless a cleanup deleted the event in between; and that
event is what an answer to the second names. -/
theorem retries_agree {s₁ m s₂ : List Obs} {o₁ o₂ : Obs} {r₁ r₂ : Nat} {row₁ row₂ : Event}
    (h : Run (Fleet.step env) Fleet.initial cas cos s) (hseen : seen cos = s₁ ++ o₁ :: (m ++ o₂ :: s₂))
    (hd₁ : o₁.decides = some (r₁, row₁)) (hd₂ : o₂.decides = some (r₂, row₂)) (hkey : row₁.sameKey row₂)
    (hdel : ∀ ids, .deleted ids ∈ m → row₁.id ∉ ids) :
    row₁.toIntakeColumns = row₂.toIntakeColumns ∧
      ∀ i resp, s.world.handlers r₂ = .answered i resp →
        resp.eventId = row₁.id ∧ resp.receivedAt = asUtc row₁.receivedAt := by
  obtain ⟨as, os, w, hw⟩ := mirror_run mirrors_initial h
  -- the two decisions are in the mirror's run, where they agree
  obtain ⟨l, l', hos, -, hl'⟩ := List.map_eq_append_iff.mp (hw.view.trans hseen)
  obtain ⟨b₁, k', rfl, rfl, hk'⟩ := List.map_eq_cons_iff.mp hl'
  obtain ⟨k, l'', rfl, rfl, hl''⟩ := List.map_eq_append_iff.mp hk'
  obtain ⟨b₂, e, rfl, rfl, -⟩ := List.map_eq_cons_iff.mp hl''
  rw [Obs.decides_renamed] at hd₁ hd₂
  have hrun := hw.run
  rw [hos] at hrun
  have hcols : row₁.toIntakeColumns = row₂.toIntakeColumns := by
    apply decisions_agree hrun hd₁ hd₂ hkey
    intro ids hids
    exact hdel ids (List.mem_map_of_mem (f := Obs.renamed origin) hids)
  refine ⟨hcols, ?_⟩
  intro i resp hx
  obtain ⟨j, hj⟩ := hw.mirrors.answered hx
  obtain ⟨hid, hat, -, -⟩ := answered_decision hrun (by simp) hd₂ hj
  rw [hid, hat]
  exact ⟨congrArg IntakeColumns.id hcols.symm, congrArg (fun c => asUtc c.receivedAt) hcols.symm⟩

/-- The process is killed between its INSERT and its answer. -/
def unansweredActs : List Act :=
  [.startup 0, .request 0 1 (sampleRequest (some "k") "\x7b\"a\":1\x7d") (sampleDraws 1 10), .handler 1]

/-- The client sends the request again. -/
def retryActs : List Act :=
  [.startup 0, .request 0 2 (sampleRequest (some "k") "\x7b\"a\":1\x7d") (sampleDraws 2 20), .handler 2, .handler 2]

/-- The last observation decides a request with a source and a key. -/
def lastDecides (r : Nat) (source key : String) (os : List Obs) : Bool :=
  (os.getLast?.bind Obs.decides).any (fun d => d.1 = r ∧ d.2.source = source ∧ d.2.idempotencyKey = some key)

theorem lastDecides_inv {os : List Obs} {r : Nat} {source key : String} (h : lastDecides r source key os = true) :
    ∃ l o row, os = l ++ [o] ∧ o.decides = some (r, row) ∧ row.source = source ∧ row.idempotencyKey = some key := by
  obtain ⟨⟨r', row⟩, hbind, hdec⟩ := (Option.any_eq_true _ _).mp h
  obtain ⟨o, hlast, hd⟩ := Option.bind_eq_some_iff.mp hbind
  obtain ⟨l, hl⟩ := List.getLast?_eq_some_iff.mp hlast
  obtain ⟨rfl, hsource, hkey⟩ := decide_eq_true_eq.mp hdec
  exact ⟨l, o, row, hl, hd, hsource, hkey⟩

/-- The retry is told the event that the killed process had stored. -/
theorem retries_agree_killed :
    ∃ t ol s cos o row i resp, exec (Fleet.step sampleEnv) Fleet.initial (unansweredActs.map .act) = some (t, ol) ∧
      exec (Fleet.step sampleEnv) t (.crash 0 :: retryActs.map .act) = some (s, cos) ∧
      o ∈ seen ol ∧ o.decides = some (1, row) ∧ s.lost 1 = true ∧ s.world.handlers 2 = .answered i resp ∧
      resp.eventId = row.id := by
  have hrun : (exec (Fleet.step sampleEnv) Fleet.initial (unansweredActs.map .act)).bind (fun a =>
      (exec (Fleet.step sampleEnv) a.1 (.crash 0 :: retryActs.map .act)).map (fun b =>
        [lastDecides 1 "demo" "k" (seen a.2), lastDecides 2 "demo" "k" (seen b.2), (seen b.2).any Obs.isDeleted,
          b.1.lost 1, (b.1.world.handlers 2).response?.isSome])) = some [true, true, false, true, true] := by
    decide +kernel
  obtain ⟨⟨t, ol⟩, h, hrest⟩ := Option.bind_eq_some_iff.mp hrun
  obtain ⟨⟨s, cos⟩, h', hfacts⟩ := Option.map_eq_some_iff.mp hrest
  simp only [List.cons.injEq, and_true] at hfacts
  obtain ⟨hfirst, hsecond, hkept, hlost, hanswer⟩ := hfacts
  obtain ⟨l, o, row, hl, hd, hsource, hk⟩ := lastDecides_inv hfirst
  obtain ⟨l', o', row', hl', hd', hsource', hk'⟩ := lastDecides_inv hsecond
  obtain ⟨resp, hresp⟩ := Option.isSome_iff_exists.mp hanswer
  obtain ⟨i, hi⟩ := Handler.response?_eq_some hresp
  have hkey : row.sameKey row' :=
    ⟨by rw [hk]; exact Option.some_ne_none "k", hsource.trans hsource'.symm, hk.trans hk'.symm⟩
  have hdel : ∀ ids, .deleted ids ∈ l' → row.id ∉ ids := by
    intro ids hids
    have hnone := List.any_eq_false.mp hkept (.deleted ids) (hl' ▸ List.mem_append_left _ hids)
    exact absurd rfl hnone
  have hseen : seen (ol ++ cos) = l ++ o :: (l' ++ o' :: []) := by
    rw [seen, List.flatMap_append]
    calc seen ol ++ seen cos = (l ++ [o]) ++ (l' ++ [o']) := by rw [hl, hl']
      _ = l ++ o :: (l' ++ o' :: []) := List.append_assoc ..
  obtain ⟨-, hsame⟩ := retries_agree ((Run.of_exec h).append (Run.of_exec h')) hseen hd hd' hkey hdel
  exact ⟨t, ol, s, cos, o, row, i, resp, h, h', hl ▸ List.mem_append_right l (List.mem_singleton_self o), hd, hlost,
    hi, (hsame i resp hi).1⟩

/-! ## What is lost -/

/-- Rows change only by inserting them and by recording outcomes. -/
theorem row_unrecorded {w w' : World} {as as' : List Act} {os os' : List Obs} {r : Nat} {row₀ : Event}
    (h : Run (step env) World.initial as os w) (h' : Run (step env) w as' os' w') (hins : .inserted r row₀ ∈ os)
    (hno : ∀ o ∈ os', ∀ result, o.records ≠ some (row₀.id, result)) :
    ∀ row ∈ w'.store.rows, row.id = row₀.id → row ∈ w.store.rows := by
  induction h' with
  | nil => exact fun row hrow _ => hrow
  | @snoc t t' as' os' a o hrun hs ih =>
    intro row hrow hid
    have hm := Move.of_step hs
    rcases hm.row_back hrow with ⟨r', rfl⟩ | ⟨row', hrow', hcols, ⟨rfl, -⟩ | ⟨result, hrec, -⟩⟩
    · exact absurd hid.symm (inserted_once (h.append hrun) hm (List.mem_append_left _ hins))
    · exact ih (fun o' ho' => hno o' (List.mem_append_left _ ho')) row' hrow' hid
    · have hid' : row'.id = row₀.id := (congrArg IntakeColumns.id hcols).trans hid
      rw [hid'] at hrec
      exact absurd hrec (hno o (List.mem_append_right _ (List.mem_singleton_self o)) result)

/-- Nothing is called, posted or recorded for a job after its process was killed. -/
theorem killed_job {p r q : Nat} {job : RelayJob} (h : Run (Fleet.step env) Fleet.initial cas cos s)
    (h' : Run (Fleet.step env) (s.crash p) cas' cos' s') (ha : .seen (.enqueued r p q job) ∈ cos) :
    effects job.eventId (seen cos') = [] ∧
      ∀ row ∈ s'.world.store.rows, row.id = job.eventId → row ∈ s.world.store.rows := by
  obtain ⟨as, os, w, hw⟩ := mirror_run mirrors_initial h
  obtain ⟨as', os', w', hw'⟩ := mirror_run (hw.mirrors.crash p) h'
  have hwhole := hw.run.append hw'.run
  -- the job belongs to an incarnation that ends with the kill
  obtain ⟨x, i, hx, hlife, hjob⟩ :
      ∃ x i, origin x = p ∧ life x ≤ s.lives p ∧ JobOf env os x job r i := by
    have hmem : Obs.enqueued r p q job ∈ os.map (Obs.renamed origin) := by
      rw [hw.view]
      exact List.mem_flatMap.mpr ⟨_, ha, List.mem_singleton_self _⟩
    obtain ⟨o, ho, hren⟩ := List.mem_map.mp hmem
    cases o <;> cases hren
    next x =>
      obtain ⟨i, hi⟩ := (jobs_run hw.run).accepted _ _ _ _ ho
      exact ⟨x, i, rfl, (hw.lives _ ho x rfl).2, hi⟩
  have hnone : effects job.eventId os' = [] := by
    rw [List.eq_nil_iff_forall_not_mem]
    intro eff heff
    obtain ⟨o, ho, hobs⟩ := List.mem_filterMap.mp heff
    obtain ⟨y, t, rfl, -⟩ := Obs.effect_some hobs
    obtain ⟨l, m, hos⟩ := List.append_of_mem (List.mem_append_right os ho)
    obtain ⟨job', r', i', -, -, -, -, hjob', hid, -⟩ := job_of_effect hwhole hos hobs
    obtain ⟨-, -, rfl, -⟩ := JobOf.unique hwhole (hjob.append os') hjob' hid.symm
    have hborn := (hw'.lives _ ho x rfl).1
    rw [hx, Fleet.crash_lives_self] at hborn
    omega
  refine ⟨?_, ?_⟩
  · rw [← hw'.view, effects_renamed, hnone]
  · have hid : (i.row env).id = job.eventId := by
      rw [hjob.job]
      rfl
    have hno : ∀ o ∈ os', ∀ result, o.records ≠ some ((i.row env).id, result) := by
      intro o ho result hrec
      rw [hid] at hrec
      unfold Obs.records at hrec
      split at hrec
      · next r' id' =>
        cases hrec
        exact (hjob.append os').not_marked hwhole r' (List.mem_append_right os ho)
      · cases hrec
        have heff : Effect.recorded result ∈ effects job.eventId os' :=
          List.mem_filterMap.mpr ⟨_, ho, if_pos rfl⟩
        rw [hnone] at heff
        cases heff
      · cases hrec
    have hrows := row_unrecorded hw.run hw'.run hjob.inserted hno
    rw [hw'.mirrors.store, hw.mirrors.store, hid] at hrows
    exact hrows

/-- A request is seen when it comes in, and in the steps of its handler. -/
theorem Move.request_by {w w' : World} {a : Act} {o : Obs} (hm : Move env w a w' o) {r : Nat}
    (hr : o.request = some r) : a = .handler r ∨ w.handlers r = .absent := by
  cases hm with
  | started | stopped | closed | began | beganLate | taken | worked | recorded | finished | dropped | idled
  | deleted => cases hr
  | rejected hh | built hh _ _ =>
    cases hr
    exact .inr hh
  | inserted | conflict | lostInsert | replayed | lostLookup | countedRelay | countedOnly | enqueued
  | refused | uninitialised | marked =>
    cases hr
    exact .inl rfl

/-- Nothing is seen any more of a request whose process was killed. -/
theorem killed_request {p r : Nat} (hr : (s.world.handlers r).inProcess p = true)
    (h' : Run (Fleet.step env) (s.crash p) cas' cos' s') : trail r (seen cos') = [] := by
  have hall : (s'.lost r = true ∧ s'.world.handlers r ≠ .absent) ∧ trail r (seen cos') = [] := by
    refine h'.history (I := fun t cos => (t.lost r = true ∧ t.world.handlers r ≠ .absent) ∧
      trail r (seen cos) = []) ?_ ?_
    · refine ⟨⟨?_, ?_⟩, rfl⟩
      · rw [Fleet.crash_lost, hr, Bool.or_true]
      · intro habsent
        rw [show s.world.handlers r = .absent from habsent] at hr
        cases hr
    · rintro t cos t' ca co ⟨⟨hlost, hx⟩, htrail⟩ hs
      cases ca with
      | crash p' =>
        cases hs
        refine ⟨⟨?_, hx⟩, ?_⟩
        · rw [Fleet.crash_lost, hlost, Bool.true_or]
        · rw [seen, List.flatMap_append]
          exact (congrArg (trail r) (List.append_nil _)).trans htrail
      | act a =>
        obtain ⟨hlive, v, o, hv, hc⟩ := Fleet.act_inv hs
        cases hc
        have hm := Move.of_step hv
        have ha : a ≠ .handler r := by
          intro heq
          rw [hlive r heq] at hlost
          cases hlost
        refine ⟨⟨hlost, ?_⟩, ?_⟩
        · rw [hm.handler_other hx ha]
          exact hx
        · have ho : o.request ≠ some r := fun ho => (hm.request_by ho).elim ha hx
          rw [seen, List.flatMap_append]
          exact (trail_snoc_other ho).trans htrail
  exact hall.2

/-- What a kill leaves undone stays undone, restarts or not: for an event whose job the
process had accepted nothing more is called, posted or recorded, and its row
stays as it is for as long as it is stored; a request it was handling is not
answered. -/
theorem crash_strands {p : Nat} (h : Run (Fleet.step env) Fleet.initial cas cos s)
    (h' : Run (Fleet.step env) (s.crash p) cas' cos' s') :
    (∀ r q job, .seen (.enqueued r p q job) ∈ cos → effects job.eventId (seen cos') = [] ∧
      ∀ row ∈ s'.world.store.rows, row.id = job.eventId → row ∈ s.world.store.rows) ∧
    ∀ r, (s.world.handlers r).inProcess p = true → trail r (seen cos') = [] := by
  refine ⟨?_, ?_⟩
  · intro r q job ha
    exact killed_job h h' ha
  · intro r hr
    exact killed_request hr h'

/-- The relay that waited at the kill is not made up for, nor is the request answered. -/
theorem crash_strands_scheduled :
    ∃ s cos s' cos' r q job row, exec (Fleet.step sampleEnv) Fleet.initial (busyActs.map .act) = some (s, cos) ∧
      exec (Fleet.step sampleEnv) (s.crash 0) (restartActs.map .act) = some (s', cos') ∧
      .seen (.enqueued r 0 q job) ∈ cos ∧ (s.world.handlers 2).inProcess 0 = true ∧
      row ∈ s'.world.store.rows ∧ row.id = job.eventId ∧ row.relayStatus = some "scheduled" ∧
      row ∈ s.world.store.rows ∧ effects job.eventId (seen cos') = [] ∧ trail 2 (seen cos') = [] := by
  have hrun : (exec (Fleet.step sampleEnv) Fleet.initial (busyActs.map .act)).bind (fun a =>
      (exec (Fleet.step sampleEnv) (a.1.crash 0) (restartActs.map .act)).map (fun b =>
        (((seen a.2).filterMap Obs.acceptedJob).map (fun x => (x.1, x.2.eventId)),
          (a.1.world.handlers 2).inProcess 0, b.1.world.store.rows.map (fun e => (e.id, e.relayStatus))))) =
      some ([(0, (sampleDraws 1 10).eventUuid.text)], true, [((sampleDraws 1 10).eventUuid.text, some "scheduled"),
        ((sampleDraws 3 30).eventUuid.text, some "success")]) := by
    decide +kernel
  obtain ⟨⟨s, cos⟩, h, hrest⟩ := Option.bind_eq_some_iff.mp hrun
  obtain ⟨⟨s', cos'⟩, h', hfacts⟩ := Option.map_eq_some_iff.mp hrest
  simp only [Prod.mk.injEq] at hfacts
  obtain ⟨hjobs, hbusy, hrows⟩ := hfacts
  obtain ⟨⟨p, job⟩, hjob, hjobId⟩ := List.mem_map.mp (hjobs ▸ List.mem_singleton_self _)
  obtain ⟨row, hrow, heq⟩ := List.mem_map.mp (hrows ▸ List.mem_cons_self)
  simp only [Prod.mk.injEq] at heq hjobId
  obtain ⟨rfl, hid⟩ := hjobId
  obtain ⟨r, q, he⟩ := mem_acceptedJobs hjob
  have hseen : .seen (.enqueued r 0 q job) ∈ cos := by
    obtain ⟨co, hco, ho⟩ := List.mem_flatMap.mp he
    cases co with
    | seen o =>
      cases List.mem_singleton.mp ho
      exact hco
    | crashed p => cases ho
  obtain ⟨hlost, hrequest⟩ := crash_strands (Run.of_exec h) (Run.of_exec h')
  obtain ⟨hnone, hkept⟩ := hlost r q job hseen
  have hrowId : row.id = job.eventId := heq.1.trans hid.symm
  exact ⟨s, cos, s', cos', r, q, job, row, h, h', hseen, hbusy, hrow, hrowId, heq.2, hkept row hrow hrowId, hnone,
    hrequest 2 hbusy⟩

end WebhookRelay
