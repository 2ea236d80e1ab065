import WebhookRelay.Draining

/-
  The end of `lifespan` in main.py: `shutdown_relay_dispatcher` cancels the
  workers and waits for them, then `shutdown_http_client` closes the client.
  Between the two nothing is left to the workers but to take their
  cancellations, each of them one, so the wait is over after as many steps as
  there are workers left, in whatever order they come (`shutdown_completes`).
-/
namespace WebhookRelay

open Transition

/-- One for a task that has not ended. -/
def TaskState.pending {J P : Type} : TaskState J P → Nat
  | .ended => 0
  | .created | .waiting _ | .running _ _ _ => 1

theorem TaskState.pending_pos {J P : Type} {s : TaskState J P} (h : s ≠ .ended) : s.pending = 1 := by
  cases s with
  | ended => exact absurd rfl h
  | created | waiting _ | running _ _ _ => rfl

theorem TaskState.pending_zero {J P : Type} {s : TaskState J P} (h : s.pending = 0) : s = .ended := by
  by_contra hne
  rw [TaskState.pending_pos hne] at h
  cases h

/-- The workers of process `p` that have not ended. -/
def World.unended (p : Nat) (w : World) : Nat := (w.procs p).dispatcher.load TaskState.pending

section

variable {env : Env} {w w' : World} {a : Act} {o : Obs} {as : List Act} {os : List Obs} {p t : Nat}

theorem quiet_iff : (w.procs p).dispatcher.quiet = true ↔ w.unended p = 0 := by
  rw [World.unended, Dispatcher.load, Finset.sum_eq_zero_iff]
  constructor
  · intro h t ht
    have hquiet := List.all_eq_true.mp h t (List.mem_range.mpr (Finset.mem_range.mp ht))
    split at hquiet
    · next hs => rw [hs, TaskState.pending]
    · cases hquiet
  · intro h
    apply List.all_eq_true.mpr
    intro t ht
    rw [TaskState.pending_zero (h t (Finset.mem_range.mpr (List.mem_range.mp ht)))]

/-- After a shutdown has begun a worker that has not ended is cancelled. -/
theorem cancelled_of_unended (hwf : (w.procs p).dispatcher.WF)
    (hq : (w.procs p).dispatcher.dispatchQueue = none)
    (hne : ((w.procs p).dispatcher.tasks t).state ≠ .ended) :
    ((w.procs p).dispatcher.tasks t).cancelled = true := by
  by_contra hc
  have hmem := hwf.current t (Bool.eq_false_of_not_eq_true hc) (by
    rw [Dispatcher.live]
    cases hs : ((w.procs p).dispatcher.tasks t).state with
    | ended => exact absurd hs hne
    | created | waiting _ | running _ _ _ => trivial)
  rw [hwf.stopped hq] at hmem
  cases hmem

/-- Such a worker can take its cancellation. -/
theorem cancellation_enabled (hc : ((w.procs p).dispatcher.tasks t).cancelled = true)
    (hne : ((w.procs p).dispatcher.tasks t).state ≠ .ended) :
    ∃ w' o, step env w (.cancelled p t) = some (w', o) := by
  cases hs : ((w.procs p).dispatcher.tasks t).state with
  | created | waiting q => exact ⟨_, _, by simp only [step, stepCancelled, hs, hc]; rfl⟩
  | running q job pos =>
    obtain ⟨d, hd⟩ := Option.isSome_iff_exists.mp (Dispatcher.jobDone_isSome hs .cancelled)
    exact ⟨_, _, by simp only [step, stepCancelled, hs, hc, hd]; rfl⟩
  | ended => exact absurd hs hne

/-- What a cancellation leaves: one worker fewer, and the rest as it was. -/
structure Cancelled (p : Nat) (w w' : World) : Prop where
  fewer : w'.unended p + 1 = w.unended p
  store : w'.store = w.store
  client : (w'.procs p).client = (w.procs p).client
  queue : (w'.procs p).dispatcher.dispatchQueue = (w.procs p).dispatcher.dispatchQueue

theorem cancellation (hstaff : w.Staffed p) (hwf : (w.procs p).dispatcher.WF)
    (hm : Move env w (.cancelled p t) w' o) : Cancelled p w w' := by
  have hqueue : (w'.procs p).dispatcher.dispatchQueue = (w.procs p).dispatcher.dispatchQueue := by
    rcases hm.globals p with ⟨h, -⟩ | ⟨h, -⟩ | ⟨h, -⟩
    · exact h
    · cases h
    · cases h
  cases hm with
  | @dropped p t q job pos d hs hc hd =>
    -- the worker has a job to give back, so `task_done` does not raise
    refine ⟨?_, rfl, ?_, hqueue⟩
    · obtain ⟨q', job', pos', hs', ⟨hzero, -⟩ | ⟨-, rfl⟩⟩ := Dispatcher.jobDone_some hd
      · exact absurd hzero (Nat.ne_of_gt (hstaff.crew.unfinished_pos hs'))
      · have hne : ((w.procs p).dispatcher.tasks t).state ≠ .ended := by
          rw [hs]
          intro hended
          cases hended
        have hload := Dispatcher.load_setState (d := (w.procs p).dispatcher.setQueue q'
          { (w.procs p).dispatcher.queues q' with
            unfinished := ((w.procs p).dispatcher.queues q').unfinished - 1 })
          TaskState.pending (hwf.born hne) (Dispatcher.afterEnd q' .cancelled)
        rw [Dispatcher.setQueue_tasks, TaskState.pending_pos hne] at hload
        simp only [World.unended, World.setDispatcher, World.setProc_procs, Function.update_self]
        exact hload
    · simp only [World.setDispatcher, World.setProc_procs, Function.update_self]
  | @idled p t hs hc =>
    refine ⟨?_, rfl, ?_, hqueue⟩
    · have hne : ((w.procs p).dispatcher.tasks t).state ≠ .ended := by
        intro hended
        rw [hended] at hs
        rcases hs with hs | ⟨q, hs⟩ <;> cases hs
      have hload := Dispatcher.load_setState (d := (w.procs p).dispatcher) TaskState.pending (hwf.born hne) .ended
      rw [TaskState.pending_pos hne] at hload
      simp only [World.unended, World.setDispatcher, World.setProc_procs, Function.update_self]
      exact hload
    · simp only [World.setDispatcher, World.setProc_procs, Function.update_self]

/-- Any cancellations, in any order. -/
theorem cancellations (h : Run (step env) World.initial as os w) {ts : List Nat} {os' : List Obs}
    (h' : Run (step env) w (ts.map (Act.cancelled p)) os' w') :
    w'.unended p + ts.length = w.unended p ∧ w'.store = w.store ∧
      (w'.procs p).client = (w.procs p).client ∧
      (w'.procs p).dispatcher.dispatchQueue = (w.procs p).dispatcher.dispatchQueue := by
  induction ts generalizing w as os os' with
  | nil =>
    obtain ⟨-, rfl⟩ := h'.nil_inv rfl
    exact ⟨rfl, rfl, rfl, rfl⟩
  | cons t ts ih =>
    obtain ⟨u, o, os'', -, hs, hrest⟩ := h'.uncons rfl
    have hone := cancellation (staffed_run h p) (workers_run h p) (Move.of_step hs)
    obtain ⟨hfewer, hstore, hclient, hqueue⟩ := ih (h.snoc hs) hrest
    refine ⟨?_, hstore.trans hone.store, hclient.trans hone.client, hqueue.trans hone.queue⟩
    have hfirst := hone.fewer
    rw [List.length_cons]
    omega

/-- There are cancellations that leave no worker. -/
theorem cancel_all (h : Run (step env) World.initial as os w)
    (hq : (w.procs p).dispatcher.dispatchQueue = none) :
    ∃ (ts : List Nat) (os' : List Obs) (w' : World),
      Run (step env) w (ts.map (Act.cancelled p)) os' w' ∧ w'.unended p = 0 := by
  generalize hn : w.unended p = n
  induction n generalizing w as os with
  | zero => exact ⟨[], [], w, .nil, hn⟩
  | succ n ih =>
    -- some worker is left, and it is cancelled
    have hleft : ∃ t, ((w.procs p).dispatcher.tasks t).state ≠ .ended := by
      by_contra hall
      have hzero : w.unended p = 0 := by
        rw [World.unended, Dispatcher.load]
        apply Finset.sum_eq_zero
        intro t _
        rw [not_not.mp (not_exists.mp hall t)]
        rfl
      omega
    obtain ⟨t, hne⟩ := hleft
    obtain ⟨w₁, o, hs⟩ : ∃ w₁ o, step env w (.cancelled p t) = some (w₁, o) :=
      cancellation_enabled (cancelled_of_unended (workers_run h p) hq hne) hne
    have hone := cancellation (staffed_run h p) (workers_run h p) (Move.of_step hs)
    have hfirst := hone.fewer
    obtain ⟨ts, os', w', hrun, hzero⟩ := ih (h.snoc hs) (hone.queue.trans hq) (by omega)
    exact ⟨t :: ts, o :: os', w', hrun.cons hs, hzero⟩

/-- **Shutdown completes.** Once it has begun, the workers have no step but
their cancellations; the client can be closed when all of them have been taken,
each worker's once, and not before; and neither they nor the closing touch the
table. -/
theorem shutdown_completes (h : Run (step env) World.initial as os w) (hc : (w.procs p).client = true)
    (hq : (w.procs p).dispatcher.dispatchQueue = none) :
    (∀ a, a.ofWorker p → step env w a ≠ none → ∃ t, a = .cancelled p t) ∧
    (step env w (.closeClient p) ≠ none ↔ w.unended p = 0) ∧
    (∀ (ts : List Nat) (os' : List Obs) (w' : World), Run (step env) w (ts.map (Act.cancelled p)) os' w' →
      w'.unended p + ts.length = w.unended p ∧ w'.store = w.store) ∧
    ∃ (ts : List Nat) (os' : List Obs) (w' : World),
      Run (step env) w (ts.map (Act.cancelled p) ++ [.closeClient p]) os' w' ∧
      ts.length = w.unended p ∧ w'.store = w.store ∧ (w'.procs p).client = false := by
  have hwf := workers_run h p
  have close : ∀ {v : World}, (v.procs p).client = true → (v.procs p).dispatcher.dispatchQueue = none →
      (step env v (.closeClient p) ≠ none ↔ v.unended p = 0) := by
    intro v hclient hqueue
    rw [← quiet_iff]
    simp [step, hclient, hqueue]
  refine ⟨?_, close hc hq, ?_, ?_⟩
  · intro a ha hsome
    obtain ⟨⟨v, o⟩, hs⟩ := Option.ne_none_iff_exists'.mp hsome
    have hdead : ∀ t, ((w.procs p).dispatcher.tasks t).cancelled = false →
        ((w.procs p).dispatcher.tasks t).state = .ended := by
      intro t hct
      by_contra hne
      rw [cancelled_of_unended hwf hq hne] at hct
      cases hct
    cases Move.of_step hs with
    | dropped | idled =>
      cases ha
      exact ⟨_, rfl⟩
    | began hst hct _ | beganLate hst hct _ | taken hst hct _ | worked hst hct _ _ | recorded hst hct
    | finished hst hct _ _ =>
      cases ha
      rw [hdead _ hct] at hst
      cases hst
    | started | stopped | closed | rejected | built | inserted | conflict | lostInsert | replayed | lostLookup
    | countedRelay | countedOnly | enqueued | refused | uninitialised | marked | deleted => exact ha.elim
  · intro ts os' w' hrun
    obtain ⟨hfewer, hstore, -, -⟩ := cancellations h hrun
    exact ⟨hfewer, hstore⟩
  · obtain ⟨ts, os', v, hrun, hzero⟩ := cancel_all h hq
    obtain ⟨hfewer, hstore, hclient, hqueue⟩ := cancellations h hrun
    have hclose := (close (hclient.trans hc) (hqueue.trans hq)).mpr hzero
    obtain ⟨⟨w', o⟩, hs⟩ := Option.ne_none_iff_exists'.mp hclose
    refine ⟨ts, os' ++ [o], w', hrun.snoc hs, by omega, ?_, ?_⟩
    · cases Move.of_step hs
      exact hstore
    · cases Move.of_step hs
      simp only [World.setProc_procs, Function.update_self]

end

/-- A process is stopped while its only worker waits for the address of a host. -/
def stoppedActs : List Act := acceptActs ++ [.begin 0 0, .take 0 0, .work 0 0 .call, .shutdown 0]

/-- One cancellation, and the client is closed. -/
theorem shutdown_completes_busy :
    ∃ w os, exec (step sampleEnv) World.initial stoppedActs = some (w, os) ∧
      (∃ q job, ((w.procs 0).dispatcher.tasks 0).state = .running q job .resolving) ∧ w.unended 0 = 1 ∧
      step sampleEnv w (.closeClient 0) = none ∧
      ∃ (ts : List Nat) (os' : List Obs) (w' : World),
        Run (step sampleEnv) w (ts.map (Act.cancelled 0) ++ [.closeClient 0]) os' w' ∧ ts.length = 1 := by
  have hrun : (exec (step sampleEnv) World.initial stoppedActs).map (fun r =>
      ((r.1.procs 0).client, (r.1.procs 0).dispatcher.dispatchQueue, (r.1.procs 0).dispatcher.nextTask,
        (r.1.procs 0).dispatcher.tasks 0 |>.state.pending,
        ((r.1.procs 0).dispatcher.jobAt 0).map (fun j => j.2.2))) = some (true, none, 1, 1, some .resolving) := by
    decide +kernel
  obtain ⟨⟨w, os⟩, h, hfacts⟩ := Option.map_eq_some_iff.mp hrun
  simp only [Prod.mk.injEq] at hfacts
  obtain ⟨hclient, hqueue, hnext, htask, hjob⟩ := hfacts
  obtain ⟨⟨q, job, pos⟩, hat, rfl⟩ := Option.map_eq_some_iff.mp hjob
  have hunended : w.unended 0 = 1 := by
    rw [World.unended, Dispatcher.load, hnext, Finset.sum_range_one, htask]
  obtain ⟨-, hclose, -, ts, os', w', hall, hlength, -, -⟩ := shutdown_completes (Run.of_exec h) hclient hqueue
  refine ⟨w, os, h, ⟨q, job, Dispatcher.jobAt_eq_some.mp hat⟩, hunended, ?_, ts, os', w', hall, hlength.trans hunended⟩
  by_contra hne
  have hzero := hclose.mp hne
  omega

end WebhookRelay
