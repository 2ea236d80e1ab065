import WebhookRelay.Ownership

/-
  Where jobs come from and what they do. `JobShift` says what a step does to
  the job of one task; from it follow that every job is the one its event's
  handler built (`jobs_run`), that a task that has not ended has its process's
  HTTP client (`client_run`), and that the effects of an event, taken from any
  run, are those of one job run once, from its start (`traced_run`).
-/
namespace WebhookRelay

open Py Transition

/-! ## Steps and the job of a task -/

/-- What a step can do to the job of task `t` of process `p`, which is `new`
after it. -/
inductive JobShift (env : Env) (w : World) (p t : Nat) (a : Act) (o : Obs)
    (new : Option (Nat × RelayJob × Position)) : Prop where
  | same (hnew : new = w.jobAt p t) (ho : ∀ id eff, o ≠ .job p t id eff)
  | taken {q : Nat} {job : RelayJob} (hfree : w.jobAt p t = none) (hitem : job ∈ w.itemsAt p q)
      (ho : o = .job p t job.eventId .taken) (hnew : new = some (q, job, .start))
  | turned {q : Nat} {job : RelayJob} {pos pos' : Position} {input : Input} {eff : Effect}
      (hold : w.jobAt p t = some (q, job, pos)) (ha : a = .work p t input)
      (hlive : ((w.procs p).dispatcher.tasks t).cancelled = false)
      (ht : Turn env (w.procs p).client job pos input pos' eff)
      (ho : o = .job p t job.eventId eff) (hnew : new = some (q, job, pos'))
  | finished {q : Nat} {job : RelayJob} {pos : Position} {e : JobEnd}
      (hold : w.jobAt p t = some (q, job, pos))
      (he : pos.ended? = some e) (ho : o = .job p t job.eventId .finished) (hnew : new = none)
  | dropped {q : Nat} {job : RelayJob} {pos : Position} (hold : w.jobAt p t = some (q, job, pos))
      (hc : ((w.procs p).dispatcher.tasks t).cancelled = true)
      (ho : o = .job p t job.eventId .dropped) (hnew : new = none)

section

variable {env : Env} {w w' : World} {a : Act} {o : Obs} {as : List Act} {os : List Obs}

/-- A step at task `t'` of process `p'` leaves the jobs of other tasks. -/
theorem JobShift.at_task {p p' t t' : Nat} {x : Option (Nat × RelayJob × Position)} {id : String}
    {eff : Effect} (ho : o = .job p' t' id eff)
    (hj : w'.jobAt = Function.update w.jobAt p' (Function.update (w.jobAt p') t' x))
    (hx : JobShift env w p' t' a o x) : JobShift env w p t a o (w'.jobAt p t) := by
  rcases update_update_cases hj p t with ⟨rfl, rfl, hu⟩ | ⟨hne, hu⟩
  · rw [hu]
    exact hx
  · refine .same hu ?_
    intro id' eff' heq
    rw [ho] at heq
    cases heq
    exact hne ⟨rfl, rfl⟩

theorem Move.jobShift (hm : Move env w a w' o) (hw : ∀ p, (w.procs p).dispatcher.WF) (p t : Nat) :
    JobShift env w p t a o (w'.jobAt p t) := by
  have quiet : w'.jobAt = w.jobAt → (∀ id eff, o ≠ .job p t id eff) →
      JobShift env w p t a o (w'.jobAt p t) := fun hj ho => .same (congrFun (congrFun hj p) t) ho
  cases hm with
  | started _ =>
    exact quiet (World.jobAt_kept (Dispatcher.jobAt_startup (hw _) _ _)) (fun _ _ h => by cases h)
  | stopped _ _ => exact quiet (World.jobAt_kept (Dispatcher.jobAt_shutdown _)) (fun _ _ h => by cases h)
  | closed _ _ => exact quiet (World.jobAt_kept rfl) (fun _ _ h => by cases h)
  | rejected _ | built _ _ _ | inserted _ _ | conflict _ _ _ | lostInsert _ _ _ | replayed _ _
  | lostLookup _ _ | refused _ | uninitialised _ _ | marked _ | deleted =>
    exact quiet rfl (fun _ _ h => by cases h)
  | countedRelay _ _ _ | countedOnly _ _ => exact quiet (World.jobAt_kept rfl) (fun _ _ h => by cases h)
  | enqueued _ _ hd =>
    subst hd
    exact quiet (World.jobAt_kept rfl) (fun _ _ h => by cases h)
  | began hs _ _ =>
    refine quiet (World.jobAt_kept ?_) (fun _ _ h => by cases h)
    exact (Dispatcher.jobAt_setState ..).trans (Dispatcher.update_jobAt_idle (.inl hs) rfl)
  | beganLate hs _ _ =>
    refine quiet (World.jobAt_kept ?_) (fun _ _ h => by cases h)
    exact (Dispatcher.jobAt_setState ..).trans (Dispatcher.update_jobAt_idle (.inl hs) rfl)
  | idled hs _ =>
    refine quiet (World.jobAt_kept ?_) (fun _ _ h => by cases h)
    exact (Dispatcher.jobAt_setState ..).trans (Dispatcher.update_jobAt_idle hs rfl)
  | @taken p' t' q job rest hs _ hitems =>
    refine .at_task rfl ?_ (.taken (World.jobAt_waiting hs) (World.mem_itemsAt hitems) rfl rfl)
    apply (World.jobAt_setProc w p' _).trans
    exact congrArg _ (Dispatcher.jobAt_setState ..)
  | @worked p' t' q job pos pos' input eff hs hc ha _ =>
    refine .at_task rfl ?_
      (.turned (Dispatcher.jobAt_eq_some.mpr hs) rfl hc (Turn.of_advance ha) rfl rfl)
    rw [World.jobAt_setProc, Proc.count_dispatcher]
    exact congrArg _ (Dispatcher.jobAt_setState ..)
  | @recorded p' t' q job out hs hc =>
    refine .at_task rfl ?_
      (.turned (Dispatcher.jobAt_eq_some.mpr hs) rfl hc .recorded rfl rfl)
    exact (World.jobAt_setProc w p' _).trans (congrArg _ (Dispatcher.jobAt_setState ..))
  | @finished p' t' q job pos e d hs _ he hd =>
    obtain ⟨hitems, hjobs⟩ := Dispatcher.jobDone_views hd
    exact .at_task rfl (w.views_at_task hitems hjobs).2
      (.finished (Dispatcher.jobAt_eq_some.mpr hs) he rfl rfl)
  | @dropped p' t' q job pos d hs hc hd =>
    obtain ⟨hitems, hjobs⟩ := Dispatcher.jobDone_views hd
    exact .at_task rfl (w.views_at_task hitems hjobs).2
      (.dropped (Dispatcher.jobAt_eq_some.mpr hs) hc rfl rfl)

/-- A waiting job was waiting before, or has just been accepted. -/
theorem Move.items_back (hm : Move env w a w' o) (hw : ∀ p, (w.procs p).dispatcher.WF) {p q : Nat}
    {job : RelayJob} (h : job ∈ w'.itemsAt p q) :
    job ∈ w.itemsAt p q ∨ ∃ r, o = .enqueued r p q job := by
  have kept : w'.itemsAt = w.itemsAt → job ∈ w.itemsAt p q ∨ ∃ r, o = .enqueued r p q job := by
    intro hi
    rw [hi] at h
    exact .inl h
  cases hm with
  | started _ => exact kept (World.itemsAt_kept (Dispatcher.itemsAt_startup (hw _) _ _))
  | stopped _ _ | closed _ _ | countedRelay _ _ _ | countedOnly _ _ | began _ _ _ | beganLate _ _ _
  | idled _ _ | recorded _ _ => exact kept (World.itemsAt_kept rfl)
  | rejected _ | built _ _ _ | inserted _ _ | conflict _ _ _ | lostInsert _ _ _ | replayed _ _
  | lostLookup _ _ | refused _ | uninitialised _ _ | marked _ | deleted => exact kept rfl
  | worked _ _ _ _ => exact kept (World.itemsAt_kept (by rw [Proc.count_dispatcher]; rfl))
  | finished _ _ _ hd => exact kept (World.itemsAt_kept (Dispatcher.jobDone_views hd).1)
  | dropped _ _ hd => exact kept (World.itemsAt_kept (Dispatcher.jobDone_views hd).1)
  | @taken p' t' q' job' rest _ _ hitems =>
    have hi : (w.setDispatcher p' (((w.procs p').dispatcher.setQueue q'
        { (w.procs p').dispatcher.queues q' with items := rest }).setState t'
          (.running q' job' .start))).itemsAt =
        Function.update w.itemsAt p' (Function.update (w.itemsAt p') q' rest) := by
      apply (World.itemsAt_setProc w p' _).trans
      exact congrArg _ (Dispatcher.itemsAt_setQueue (w.procs p').dispatcher q' _)
    rcases update_update_cases hi p q with ⟨rfl, rfl, hu⟩ | ⟨-, hu⟩
    · rw [hu] at h
      refine .inl ?_
      rw [World.itemsAt, Dispatcher.itemsAt, hitems]
      exact List.mem_cons_of_mem _ h
    · rw [hu] at h
      exact .inl h
  | @enqueued r q' i d _ _ hd =>
    have hi : ((w.setDispatcher i.pid d).setHandler r (.answered i (createResponse i.event))).itemsAt =
        Function.update w.itemsAt i.pid (Function.update (w.itemsAt i.pid) q'
          (w.itemsAt i.pid q' ++ [relayJob (env.settings i.pid) i.event])) := by
      subst hd
      apply (World.itemsAt_setProc w i.pid _).trans
      exact congrArg _ (Dispatcher.itemsAt_setQueue ..)
    rcases update_update_cases hi p q with ⟨rfl, rfl, hu⟩ | ⟨-, hu⟩
    · rw [hu] at h
      rcases List.mem_append.mp h with h | h
      · exact .inl h
      · cases List.mem_singleton.mp h
        exact .inr ⟨r, rfl⟩
    · rw [hu] at h
      exact .inl h

/-! ## Jobs and clients -/

/-- The job is the one a handler of process `p` built for the event it
inserted, with a target and a free queue. -/
structure JobOf (env : Env) (os : List Obs) (p : Nat) (job : RelayJob) (r : Nat) (i : Intake) : Prop where
  built : .built r i ∈ os
  inserted : .inserted r (i.row env) ∈ os
  accepted : ∃ q, .enqueued r p q job ∈ os
  pid : i.pid = p
  job : job = relayJob (env.settings p) i.event

theorem JobOf.append {p r : Nat} {job : RelayJob} {i : Intake} (h : JobOf env os p job r i)
    (os' : List Obs) : JobOf env (os ++ os') p job r i := by
  obtain ⟨q, hq⟩ := h.accepted
  exact ⟨List.mem_append_left _ h.built, List.mem_append_left _ h.inserted,
    ⟨q, List.mem_append_left _ hq⟩, h.pid, h.job⟩

/-- A job belongs to one request. -/
theorem JobOf.unique (h : Run (step env) World.initial as os w) {p p' r r' : Nat} {job job' : RelayJob}
    {i i' : Intake} (hj : JobOf env os p job r i) (hj' : JobOf env os p' job' r' i')
    (hid : job.eventId = job'.eventId) : r = r' ∧ i = i' ∧ p = p' ∧ job = job' := by
  have hid' : i.event.id = i'.event.id := by
    rw [hj.job, hj'.job] at hid
    exact hid
  obtain ⟨rfl, rfl⟩ := built_unique h hj.built hj'.built hid'
  obtain rfl : p = p' := hj.pid.symm.trans hj'.pid
  exact ⟨rfl, rfl, rfl, hj.job.trans hj'.job.symm⟩

/-- What a request has done when its job is accepted. -/
theorem Move.enqueued_inv {r p q : Nat} {job : RelayJob} (hm : Move env w a w' (.enqueued r p q job)) :
    ∃ i, w.handlers r = .active i .enqueuing ∧ i.pid = p ∧
      (w.procs p).dispatcher.dispatchQueue = some q ∧ job = relayJob (env.settings p) i.event := by
  cases hm with
  | enqueued hh hq _ => exact ⟨_, hh, rfl, hq, rfl⟩

/-- Every accepted job, waiting or running, is its event's. -/
structure Jobs (env : Env) (w : World) (os : List Obs) : Prop where
  accepted : ∀ r p q job, .enqueued r p q job ∈ os → ∃ i, JobOf env os p job r i
  waiting : ∀ p q, ∀ job ∈ w.itemsAt p q, ∃ r, .enqueued r p q job ∈ os
  running : ∀ p t q job pos, w.jobAt p t = some (q, job, pos) → ∃ r, .enqueued r p q job ∈ os

theorem jobs_run (h : Run (step env) World.initial as os w) : Jobs env w os := by
  induction h with
  | nil =>
    refine ⟨?_, ?_, ?_⟩
    · intro r p q job hmem
      cases hmem
    · intro p q job hmem
      cases hmem
    · intro p t q job pos hjob
      cases hjob
  | @snoc t t' as os a o hrun hs ih =>
    have hm := Move.of_step hs
    have hw := workers_run hrun
    refine ⟨?_, ?_, ?_⟩
    · intro r p q job hmem
      rcases List.mem_append.mp hmem with hmem | hmem
      · obtain ⟨i, hi⟩ := ih.accepted r p q job hmem
        exact ⟨i, hi.append [o]⟩
      · cases List.mem_singleton.mp hmem
        replace hmem := List.mem_append_right os hmem
        obtain ⟨i, hh, hpid, -, hjob⟩ := hm.enqueued_inv
        exact ⟨i, List.mem_append_left _ (built_of_active hrun hh),
          List.mem_append_left _ (inserted_of_active hrun hh Phase.noConfusion Phase.noConfusion),
          ⟨q, hmem⟩, hpid, hjob⟩
    · intro p q job hjob
      rcases hm.items_back hw hjob with hjob | ⟨r, rfl⟩
      · obtain ⟨r, hr⟩ := ih.waiting p q job hjob
        exact ⟨r, List.mem_append_left _ hr⟩
      · exact ⟨r, List.mem_append_right _ (List.mem_singleton_self _)⟩
    · intro p t q job pos hjob
      have keep : (∃ r, Obs.enqueued r p q job ∈ os) → ∃ r, Obs.enqueued r p q job ∈ os ++ [o] := by
        intro ⟨r, hr⟩
        exact ⟨r, List.mem_append_left _ hr⟩
      -- a running job was waiting, or running, before
      cases hm.jobShift hw p t with
      | same hnew _ =>
        rw [hnew] at hjob
        exact keep (ih.running p t q job pos hjob)
      | taken _ hitem _ hnew =>
        rw [hnew] at hjob
        cases hjob
        exact keep (ih.waiting p q job hitem)
      | turned hold _ _ _ _ hnew =>
        rw [hnew] at hjob
        cases hjob
        exact keep (ih.running p t q job _ hold)
      | finished _ _ _ hnew | dropped _ _ _ hnew =>
        rw [hnew] at hjob
        cases hjob

theorem Jobs.running_of {p t q : Nat} {job : RelayJob} {pos : Position} (hj : Jobs env w os)
    (h : w.jobAt p t = some (q, job, pos)) : ∃ r i, JobOf env os p job r i := by
  obtain ⟨r, hr⟩ := hj.running p t q job pos h
  obtain ⟨i, hi⟩ := hj.accepted r p q job hr
  exact ⟨r, i, hi⟩

/-- Without the HTTP client a process has no worker. -/
def Proc.Backed (P : Proc) : Prop :=
  P.client = false → ∀ t, (P.dispatcher.tasks t).state = .ended

theorem client_step (hm : Move env w a w' o) (hw : ∀ p, (w.procs p).dispatcher.WF)
    (hb : ∀ p, (w.procs p).Backed) (p : Nat) : (w'.procs p).Backed := by
  have setProc : ∀ p' P, (P : Proc).Backed → ((w.setProc p' P).procs p).Backed := by
    intro p' P hP
    rcases w.setProc_cases p p' P with ⟨-, h⟩ | h
    · rw [h]
      exact hP
    · rw [h]
      exact hb p
  -- a task that has not ended shows that the client is there
  have busy : ∀ {p' t : Nat} {d : Dispatcher RelayJob Position},
      ((w.procs p').dispatcher.tasks t).state ≠ .ended →
      Proc.Backed { w.procs p' with dispatcher := d } := by
    intro p' t d hne hc
    exact absurd (hb p' hc t) hne
  cases hm with
  | started _ =>
    apply setProc _ _
    intro hc
    cases hc
  | stopped hc _ =>
    apply setProc _ _
    intro hc'
    exact absurd hc' (by rw [hc]; decide)
  | @closed p' hq hquiet =>
    apply setProc _ _
    intro _ t
    by_cases hlt : t < (w.procs p').dispatcher.nextTask
    · have ht := List.all_eq_true.mp hquiet t (List.mem_range.mpr hlt)
      split at ht
      · assumption
      · cases ht
    · exact (hw p').unborn t (Nat.not_lt.mp hlt)
  | rejected _ | built _ _ _ | inserted _ _ | conflict _ _ _ | lostInsert _ _ _ | replayed _ _
  | lostLookup _ _ | refused _ | uninitialised _ _ | marked _ | deleted => exact hb p
  | countedRelay _ _ _ | countedOnly _ _ => exact setProc _ _ (hb _)
  | enqueued _ _ hd =>
    subst hd
    exact setProc _ _ (hb _)
  | began hs _ _ | beganLate hs _ _ => exact setProc _ _ (busy (by rw [hs]; exact nofun))
  | idled hs _ =>
    rcases hs with hs | ⟨q, hs⟩ <;>
      exact setProc _ _ (busy (by rw [hs]; exact nofun))
  | taken hs _ _ => exact setProc _ _ (busy (by rw [hs]; exact nofun))
  | worked hs _ _ _ =>
    apply setProc _ _
    intro hc
    rw [Proc.count_client] at hc
    exact absurd (hb _ hc _) (by rw [hs]; exact nofun)
  | recorded hs _ => exact setProc _ _ (busy (by rw [hs]; exact nofun))
  | finished hs _ _ _ => exact setProc _ _ (busy (by rw [hs]; exact nofun))
  | dropped hs _ _ => exact setProc _ _ (busy (by rw [hs]; exact nofun))

theorem client_run (h : Run (step env) World.initial as os w) (p : Nat) : (w.procs p).Backed := by
  induction h generalizing p with
  | nil =>
    intro _ t
    rfl
  | snoc hrun hs ih => exact client_step (Move.of_step hs) (workers_run hrun) ih p

/-- A task with a job has the client. -/
theorem client_of_job (h : Run (step env) World.initial as os w) {p t q : Nat} {job : RelayJob}
    {pos : Position} (hj : w.jobAt p t = some (q, job, pos)) : (w.procs p).client = true := by
  by_contra hc
  have hended := client_run h p (Bool.eq_false_of_not_eq_true hc) t
  have hrunning := Dispatcher.jobAt_eq_some.mp hj
  rw [hended] at hrunning
  cases hrunning

/-! ## The effects of an event -/

/-- What an observation shows of the code of event `id`'s job. -/
def Obs.effect (id : String) : Obs → Option Effect
  | .job _ _ id' eff =>
    match eff with
    | .taken | .finished | .dropped => none
    | .called | .resolved _ | .posted _ | .answered _ | .recorded _ => if id' = id then some eff else none
  | _ => none

/-- The effects of an event's jobs, in their order. -/
def effects (id : String) (os : List Obs) : List Effect := os.filterMap (Obs.effect id)

theorem effects_snoc (id : String) (os : List Obs) (o : Obs) :
    effects id (os ++ [o]) = effects id os ++ (o.effect id).toList :=
  readings_snoc (Obs.effect id) os o

theorem effects_snoc_none {id : String} {os : List Obs} {o : Obs} (h : o.effect id = none) :
    effects id (os ++ [o]) = effects id os := by
  rw [effects_snoc, h]
  exact List.append_nil _

/-- The effects of one job that stands at a position, run from its start. -/
inductive JobTrace (env : Env) (job : RelayJob) : List Effect → Position → Prop where
  | start : JobTrace env job [] .start
  | turn {tr : List Effect} {client : Bool} {pos pos' : Position} {input : Input} {eff : Effect}
      (h : JobTrace env job tr pos) (ht : Turn env client job pos input pos' eff) :
      JobTrace env job (tr ++ [eff]) pos'

/-- The job of the event has been taken. -/
def Stage.Launched : Stage → Prop
  | .running _ _ _ | .settled | .stranded => True
  | .unborn | .intake _ | .idle | .held _ | .queued _ _ => False

theorem Stage.Launched.next {st st' : Stage} (h : st.Launched) (hn : Stage.Next st st') : st'.Launched := by
  cases hn with
  | build | insertPlain | insertScheduled | enqueue | mark | lose | take => exact h.elim
  | record | strand => trivial

theorem launched_runningStage (p q t : Nat) (pos : Position) : (runningStage p q t pos).Launched := by
  rcases runningStage_cases p q t pos with ⟨-, h⟩ | ⟨-, h⟩ <;> rw [h] <;> trivial

theorem Turn.effect {client : Bool} {job : RelayJob} {pos pos' : Position} {input : Input} {eff : Effect}
    (h : Turn env client job pos input pos' eff) (p t : Nat) (id : String) :
    Obs.effect id (.job p t id eff) = some eff := by
  cases h <;> exact if_pos rfl

theorem Turn.pos_ne {client : Bool} {job : RelayJob} {pos pos' : Position} {input : Input} {eff : Effect}
    (h : Turn env client job pos input pos' eff) : pos ≠ .returned := by
  cases h <;> exact Position.noConfusion

theorem Obs.effect_some {id : String} {eff : Effect} (h : o.effect id = some eff) :
    ∃ p t, o = .job p t id eff ∧ eff ≠ .taken ∧ eff ≠ .finished ∧ eff ≠ .dropped := by
  unfold Obs.effect at h
  split at h
  · next p t id' eff' =>
    split at h
    · cases h
    · cases h
    · cases h
    all_goals
      split at h
      · next hid =>
        cases h
        subst hid
        exact ⟨p, t, rfl, Effect.noConfusion, Effect.noConfusion, Effect.noConfusion⟩
      · cases h
  · cases h

/-- An effect comes from the code of a running job. -/
theorem effect_turned (hm : Move env w a w' o) (hw : ∀ p, (w.procs p).dispatcher.WF) {id : String}
    {eff : Effect} (h : o.effect id = some eff) :
    ∃ p t q job pos pos' input, w.jobAt p t = some (q, job, pos) ∧ job.eventId = id ∧
      a = .work p t input ∧ ((w.procs p).dispatcher.tasks t).cancelled = false ∧
      Turn env (w.procs p).client job pos input pos' eff ∧ o = .job p t id eff ∧
      w'.jobAt p t = some (q, job, pos') := by
  obtain ⟨p, t, rfl, htaken, hfin, hdrop⟩ := Obs.effect_some h
  cases hm.jobShift hw p t with
  | same _ ho => exact absurd rfl (ho id eff)
  | taken _ _ ho _ =>
    cases ho
    exact absurd rfl htaken
  | turned hold ha hlive ht ho hnew =>
    cases ho
    exact ⟨p, t, _, _, _, _, _, hold, rfl, ha, hlive, ht, rfl, hnew⟩
  | finished _ _ ho _ =>
    cases ho
    exact absurd rfl hfin
  | dropped _ _ ho _ =>
    cases ho
    exact absurd rfl hdrop

/-- The effects of an event are those of its job, from the start on. -/
structure Traced (env : Env) (w : World) (os : List Obs) : Prop where
  before : ∀ id, ¬ (stage id os).Launched → effects id os = []
  running : ∀ p t q job pos, w.jobAt p t = some (q, job, pos) →
    JobTrace env job (effects job.eventId os) pos
  whole : ∀ id, effects id os = [] ∨ ∃ p r i pos, i.event.id = id ∧
    JobOf env os p (relayJob (env.settings p) i.event) r i ∧
    JobTrace env (relayJob (env.settings p) i.event) (effects id os) pos

theorem traced_run (h : Run (step env) World.initial as os w) : Traced env w os := by
  induction h with
  | nil =>
    refine ⟨fun _ _ => rfl, ?_, fun _ => .inl rfl⟩
    intro p t q job pos hjob
    cases hjob
  | @snoc t₀ t₁ as os a o hrun hs ih =>
    have hm := Move.of_step hs
    have hw := workers_run hrun
    have ho := owned_run hrun
    refine ⟨?_, ?_, ?_⟩
    · intro id hnot
      -- a launched event stays launched, so it was not launched before either
      have hbefore : ¬ (stage id os).Launched := by
        intro hl
        rcases stage_moves hrun hs id with heq | hnext
        · exact hnot (heq ▸ hl)
        · exact hnot (hl.next hnext)
      cases heff : o.effect id with
      | none => rw [effects_snoc_none heff, ih.before id hbefore]
      | some eff =>
        obtain ⟨p, t, q, job, pos, pos', input, hold, rfl, -⟩ := effect_turned hm hw heff
        rw [ho.running p t q job pos hold] at hbefore
        exact absurd (launched_runningStage p q t pos) hbefore
    · intro p t q job pos hjob
      cases hm.jobShift hw p t with
      | same hnew hother =>
        rw [hnew] at hjob
        have hnone : o.effect job.eventId = none := by
          by_contra hne
          obtain ⟨eff, heff⟩ := Option.ne_none_iff_exists'.mp hne
          obtain ⟨p', t', q', job', pos', pos'', input, hold, hid, -, -, ht, rfl, -⟩ :=
            effect_turned hm hw heff
          -- the task at work and this one hold the same event
          have hst := ho.running p' t' q' job' pos' hold
          rw [hid, ho.running p t q job pos hjob] at hst
          rcases runningStage_cases p' q' t' pos' with ⟨hpos, -⟩ | ⟨-, hc'⟩
          · exact ht.pos_ne hpos
          · rcases runningStage_cases p q t pos with ⟨-, hc⟩ | ⟨-, hc⟩ <;> rw [hc, hc'] at hst
            · cases hst
            · cases hst
              exact hother _ _ rfl
        rw [effects_snoc_none hnone]
        exact ih.running p t q job pos hjob
      | taken _ hitem heq hnew =>
        rw [hnew] at hjob
        cases hjob
        -- an event that is still queued has had no effect
        have hempty : effects job.eventId os = [] := by
          apply ih.before
          rw [ho.queued p q job hitem]
          exact fun hf => hf
        rw [heq, effects_snoc_none rfl, hempty]
        exact .start
      | @turned q' job' pos₀ pos' input eff hold _ _ ht heq hnew =>
        rw [hnew] at hjob
        cases hjob
        rw [heq, effects_snoc, ht.effect]
        exact (ih.running p t q job pos₀ hold).turn ht
      | finished _ _ _ hnew | dropped _ _ _ hnew =>
        rw [hnew] at hjob
        cases hjob
    · intro id
      cases heff : o.effect id with
      | none =>
        rw [effects_snoc_none heff]
        rcases ih.whole id with hempty | ⟨p, r, i, pos, hid, hjob, htr⟩
        · exact .inl hempty
        · exact .inr ⟨p, r, i, pos, hid, hjob.append _, htr⟩
      | some eff =>
        obtain ⟨p, t, q, job, pos, pos', input, hold, rfl, -, -, ht, rfl, -⟩ := effect_turned hm hw heff
        obtain ⟨r, i, hi⟩ := (jobs_run hrun).running_of hold
        have hjob := hi.job
        refine .inr ⟨p, r, i, pos', ?_, ?_, ?_⟩
        · rw [hjob]
          rfl
        · rw [← hjob]
          exact hi.append _
        · rw [← hjob, effects_snoc, heff]
          exact (ih.running p t q job pos hold).turn ht

end

end WebhookRelay
