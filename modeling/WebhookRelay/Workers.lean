import WebhookRelay.System

/-
  The workers of a dispatcher over its whole life, startups and shutdowns
  included. `Dispatcher.Step` lists what can happen to a dispatcher, and
  `Dispatcher.WF` is kept by all of it: the workers that are not cancelled are
  those of the global list, and those of them that have begun serve the queue
  of the global, which no cancelled one does. `workers_run` carries this to
  every process of every run.
-/
namespace WebhookRelay

open Transition

namespace Dispatcher

variable {J P : Type}

/-- The queue a task has read from the global, if it has begun. -/
def serves (task : Task J P) : Option Nat :=
  match task.state with
  | .waiting q => some q
  | .running q _ _ => some q
  | .created | .ended => none

/-- A task that has not ended. -/
def live (task : Task J P) : Prop :=
  match task.state with
  | .ended => False
  | .created | .waiting _ | .running _ _ _ => True

theorem live_of_serves {task : Task J P} {q : Nat} (h : serves task = some q) : live task := by
  unfold serves at h
  unfold live
  split at h <;> simp_all

/-- The globals point at the queue and the tasks they should. -/
structure WF (d : Dispatcher J P) : Prop where
  queue_lt : ∀ q, d.dispatchQueue = some q → q < d.nextQueue
  unused : ∀ q, d.nextQueue ≤ q → (d.queues q).items = []
  unborn : ∀ t, d.nextTask ≤ t → (d.tasks t).state = .ended
  workers : ∀ t ∈ d.dispatchWorkers, t < d.nextTask
  current : ∀ t, (d.tasks t).cancelled = false → live (d.tasks t) → t ∈ d.dispatchWorkers
  serving : ∀ t q, (d.tasks t).cancelled = false → serves (d.tasks t) = some q →
    d.dispatchQueue = some q
  stopped : d.dispatchQueue = none → d.dispatchWorkers = []
  served_lt : ∀ t q, serves (d.tasks t) = some q → q < d.nextQueue
  uncancelled : ∀ t q, serves (d.tasks t) = some q → d.dispatchQueue = some q →
    (d.tasks t).cancelled = false

/-- What can happen to a dispatcher. -/
inductive Step (d : Dispatcher J P) : Dispatcher J P → Prop where
  | same : Step d d
  | startup (workerCount queueSize : Int) : Step d (d.startup workerCount queueSize)
  | shutdown : Step d d.shutdown
  | put {q : Nat} {Q : Queue J} (hq : d.dispatchQueue = some q) : Step d (d.setQueue q Q)
  | began {t q : Nat} (hs : (d.tasks t).state = .created) (hc : (d.tasks t).cancelled = false)
      (hq : d.dispatchQueue = some q) : Step d (d.setState t (.waiting q))
  | took {t q : Nat} {Q : Queue J} {job : J} {pos : P} (hs : (d.tasks t).state = .waiting q)
      (hi : (d.queues q).items ≠ []) : Step d ((d.setQueue q Q).setState t (.running q job pos))
  | moved {t q : Nat} {job : J} {pos pos' : P} (hs : (d.tasks t).state = .running q job pos) :
      Step d (d.setState t (.running q job pos'))
  | finished {t q : Nat} {Q : Queue J} {job : J} {pos : P}
      (hs : (d.tasks t).state = .running q job pos) (hQ : Q.items = (d.queues q).items) :
      Step d ((d.setQueue q Q).setState t (.waiting q))
  | dropped {t q : Nat} {Q : Queue J} (hQ : Q.items = (d.queues q).items) :
      Step d ((d.setQueue q Q).setState t .ended)
  | ended {t : Nat} : Step d (d.setState t .ended)

theorem Step.of_jobDone {d d' : Dispatcher J P} {t : Nat} {e : JobEnd} (h : d.jobDone t e = some d') :
    Step d d' := by
  obtain ⟨q, job, pos, hs, ⟨-, rfl⟩ | ⟨-, rfl⟩⟩ := jobDone_some h
  · exact .ended
  · cases e with
    | returned | raised _ => exact .finished hs rfl
    | cancelled => exact .dropped rfl

/-- A dispatcher that was never started. -/
theorem WF.init : ({} : Dispatcher J P).WF := by
  refine ⟨nofun, fun _ _ => rfl, fun _ _ => rfl, nofun, ?_, ?_, fun _ => rfl, ?_, ?_⟩
  · intro t _ hl
    exact hl.elim
  · intro t q _ hs
    cases hs
  · intro t q hs
    cases hs
  · intro t q hs
    cases hs

/-- Moving a task among states that serve the same queue keeps what is known. -/
theorem WF.setState {d : Dispatcher J P} (h : d.WF) {t : Nat} {s : TaskState J P}
    (ht : live { d.tasks t with state := s } → live (d.tasks t))
    (hserve : ∀ q, serves { d.tasks t with state := s } = some q →
      serves (d.tasks t) = some q ∨ (d.dispatchQueue = some q ∧ (d.tasks t).cancelled = false)) :
    (d.setState t s).WF := by
  -- a task that does not exist yet is not live, so it is given no live state
  have hended : ∀ u, d.nextTask ≤ u → ((d.setState t s).tasks u).state = .ended := by
    intro u hu
    by_cases hut : u = t
    · subst hut
      have hold := h.unborn u hu
      have hdead : ¬ live (d.tasks u) := by
        rw [live, hold]
        exact fun hf => hf
      simp only [setState_tasks, Function.update_self]
      cases s with
      | ended => rfl
      | created | waiting _ | running _ _ _ => exact absurd (ht trivial) hdead
    · simp only [setState_tasks, Function.update_of_ne hut]
      exact h.unborn u hu
  refine ⟨h.queue_lt, h.unused, hended, h.workers, ?_, ?_, h.stopped, ?_, ?_⟩
  · intro u hc hl
    by_cases hut : u = t
    · subst hut
      simp only [setState_tasks, Function.update_self] at hc hl
      exact h.current u hc (ht hl)
    · simp only [setState_tasks, Function.update_of_ne hut] at hc hl
      exact h.current u hc hl
  · intro u q hc hq
    by_cases hut : u = t
    · subst hut
      simp only [setState_tasks, Function.update_self] at hc hq
      rcases hserve q hq with hold | ⟨hcur, -⟩
      · exact h.serving u q hc hold
      · exact hcur
    · simp only [setState_tasks, Function.update_of_ne hut] at hc hq
      exact h.serving u q hc hq
  · intro u q hq
    by_cases hut : u = t
    · subst hut
      simp only [setState_tasks, Function.update_self] at hq
      rcases hserve q hq with hold | ⟨hcur, -⟩
      · exact h.served_lt u q hold
      · exact h.queue_lt q hcur
    · simp only [setState_tasks, Function.update_of_ne hut] at hq
      exact h.served_lt u q hq
  · intro u q hq hcur
    by_cases hut : u = t
    · subst hut
      simp only [setState_tasks, Function.update_self] at hq ⊢
      rcases hserve q hq with hold | ⟨-, hc⟩
      · exact h.uncancelled u q hold hcur
      · exact hc
    · simp only [setState_tasks, Function.update_of_ne hut] at hq ⊢
      exact h.uncancelled u q hq hcur

theorem WF.setQueue {d : Dispatcher J P} (h : d.WF) {q : Nat} {Q : Queue J}
    (hQ : d.nextQueue ≤ q → Q.items = []) : (d.setQueue q Q).WF := by
  refine ⟨h.queue_lt, ?_, h.unborn, h.workers, h.current, h.serving, h.stopped, h.served_lt,
    h.uncancelled⟩
  intro u hu
  by_cases huq : u = q
  · subst huq
    rw [setQueue_queues, Function.update_self]
    exact hQ hu
  · rw [setQueue_queues, Function.update_of_ne huq]
    exact h.unused u hu

theorem WF.startup {d : Dispatcher J P} (h : d.WF) (workerCount queueSize : Int) :
    (d.startup workerCount queueSize).WF := by
  cases hq : d.dispatchQueue with
  | some r =>
    rw [startup_running (by rw [hq]; rfl)]
    exact h
  | none =>
    rw [startup_idle hq]
    -- the tasks of earlier startups are all cancelled or ended
    have hold : ∀ t, (d.tasks t).cancelled = false → ¬ live (d.tasks t) := by
      intro t hc hl
      have hmem := h.current t hc hl
      rw [h.stopped hq] at hmem
      cases hmem
    refine ⟨?_, ?_, ?_, ?_, ?_, ?_, ?_, ?_, ?_⟩
    · intro q hq
      cases hq
      exact Nat.lt_succ_self _
    · intro q hle
      have hne : q ≠ d.nextQueue := by
        intro he
        simp only at hle
        omega
      simp only [Function.update_of_ne hne]
      apply h.unused
      simp only at hle
      omega
    · intro t hle
      have hnot : t ∉ List.range' d.nextTask (max workerCount 1).toNat := by
        intro hmem
        have hlt := (List.mem_range'_1.mp hmem).2
        simp only at hle
        omega
      simp only [if_neg hnot]
      apply h.unborn
      simp only at hle
      omega
    · intro t ht
      exact (List.mem_range'_1.mp ht).2
    · intro t hc hl
      by_cases ht : t ∈ List.range' d.nextTask (max workerCount 1).toNat
      · exact ht
      · simp only [if_neg ht] at hc hl
        exact absurd hl (hold t hc)
    · intro t q hc hs
      by_cases ht : t ∈ List.range' d.nextTask (max workerCount 1).toNat
      · simp only [if_pos ht] at hs
        cases hs
      · simp only [if_neg ht] at hc hs
        exact absurd (live_of_serves hs) (hold t hc)
    · intro hf
      cases hf
    · intro t q hs
      by_cases ht : t ∈ List.range' d.nextTask (max workerCount 1).toNat
      · simp only [if_pos ht] at hs
        cases hs
      · simp only [if_neg ht] at hs
        exact Nat.lt_succ_of_lt (h.served_lt t q hs)
    · intro t q hs hcur
      by_cases ht : t ∈ List.range' d.nextTask (max workerCount 1).toNat
      · simp only [if_pos ht] at hs
        cases hs
      · -- the queue is new, and nobody served it before
        simp only [if_neg ht] at hs
        cases hcur
        exact absurd (h.served_lt t _ hs) (Nat.lt_irrefl _)

theorem WF.shutdown {d : Dispatcher J P} (h : d.WF) : d.shutdown.WF := by
  -- a task that is not cancelled now was none of the workers
  have hold : ∀ t, (d.shutdown.tasks t).cancelled = false →
      t ∉ d.dispatchWorkers ∧ (d.tasks t).cancelled = false := by
    intro t hc
    rw [← Bool.not_eq_true, shutdown_cancelled, not_or, Bool.not_eq_true] at hc
    exact hc
  refine ⟨nofun, h.unused, ?_, nofun, ?_, ?_, fun _ => rfl, ?_, nofun⟩
  · intro t hle
    rw [shutdown_state]
    exact h.unborn t hle
  · intro t hc hl
    obtain ⟨hn, hc⟩ := hold t hc
    rw [live, shutdown_state] at hl
    exact absurd (h.current t hc hl) hn
  · intro t q hc hs
    obtain ⟨hn, hc⟩ := hold t hc
    rw [serves, shutdown_state] at hs
    exact absurd (h.current t hc (live_of_serves hs)) hn
  · intro t q hs
    rw [serves, shutdown_state] at hs
    exact h.served_lt t q hs

theorem WF.step {d d' : Dispatcher J P} (h : d.WF) (hs : d.Step d') : d'.WF := by
  cases hs with
  | same => exact h
  | startup workerCount queueSize => exact h.startup workerCount queueSize
  | shutdown => exact h.shutdown
  | put hq =>
    apply h.setQueue
    intro hle
    exact absurd (h.queue_lt _ hq) (Nat.not_lt.mpr hle)
  | @began t q hs hc hq =>
    apply h.setState
    · intro _
      rw [live, hs]
      trivial
    · intro q' hq'
      cases hq'
      exact .inr ⟨hq, hc⟩
  | @took t q Q job pos hs hi =>
    have hQ : (d.setQueue q Q).WF := h.setQueue (fun hle => absurd (h.unused q hle) hi)
    apply hQ.setState
    · intro _
      rw [setQueue_tasks, live, hs]
      trivial
    · intro q' hq'
      cases hq'
      exact .inl (by rw [setQueue_tasks, serves, hs])
  | @moved t q job pos pos' hs =>
    apply h.setState
    · intro _
      rw [live, hs]
      trivial
    · intro q' hq'
      cases hq'
      exact .inl (by rw [serves, hs])
  | @finished t q Q job pos hs hQ =>
    have hwf : (d.setQueue q Q).WF := h.setQueue (fun hle => by rw [hQ]; exact h.unused q hle)
    apply hwf.setState
    · intro _
      rw [setQueue_tasks, live, hs]
      trivial
    · intro q' hq'
      cases hq'
      exact .inl (by rw [setQueue_tasks, serves, hs])
  | @dropped t q Q hQ =>
    have hwf : (d.setQueue q Q).WF := h.setQueue (fun hle => by rw [hQ]; exact h.unused q hle)
    exact hwf.setState (fun hf => hf.elim) (fun q' hq' => by cases hq')
  | ended => exact h.setState (fun hf => hf.elim) (fun q' hq' => by cases hq')

end Dispatcher

section

variable {env : Env} {w w' : World} {a : Act} {o : Obs} {as : List Act} {os : List Obs}

/-- A step of the service is a step, or none, of each dispatcher. -/
theorem Move.dispatcher (hm : Move env w a w' o) (p : Nat) :
    (w.procs p).dispatcher.Step (w'.procs p).dispatcher := by
  have at_p : ∀ p' P, (w.procs p').dispatcher.Step (P : Proc).dispatcher →
      (w.procs p).dispatcher.Step ((w.setProc p' P).procs p).dispatcher := by
    intro p' P hs
    rcases w.setProc_cases p p' P with ⟨rfl, h⟩ | h
    · rw [h]
      exact hs
    · rw [h]
      exact .same
  cases hm with
  | started => exact at_p _ _ (.startup _ _)
  | stopped => exact at_p _ _ .shutdown
  | closed | countedRelay | countedOnly => exact at_p _ _ .same
  | rejected | built | inserted | conflict | lostInsert | replayed | lostLookup | refused | uninitialised
  | marked | deleted => exact .same
  | enqueued hh hq hd =>
    subst hd
    exact at_p _ _ (.put hq)
  | began hs hc hq => exact at_p _ _ (.began hs hc hq)
  | beganLate | idled => exact at_p _ _ .ended
  | taken hs hc hi => exact at_p _ _ (.took hs (by rw [hi]; exact nofun))
  | worked hs hc ha hr =>
    apply at_p _ _
    rw [Proc.count_dispatcher]
    exact .moved hs
  | recorded hs hc => exact at_p _ _ (.moved hs)
  | finished hs hc he hd => exact at_p _ _ (.of_jobDone hd)
  | dropped hs hc hd => exact at_p _ _ (.of_jobDone hd)

theorem workers_run (h : Run (step env) World.initial as os w) (p : Nat) :
    (w.procs p).dispatcher.WF := by
  induction h with
  | nil => exact .init
  | snoc _ hs ih => exact ih.step ((Move.of_step hs).dispatcher p)

end

end WebhookRelay
