import WebhookRelay.Pool
import WebhookRelay.Workers

/-
  The dispatcher under every order of calls: startups, shutdowns that wait in
  their `gather` while others go on, enqueues, and the steps of the workers,
  which may begin long after they were created. Jobs carry the number of their
  offer, and observations name the queue a startup made and the one an offer
  went to.

  A job sees `CancelledError` only when its worker was cancelled, and lets it
  through to the worker's loop.

  `Crew` is what holds of the dispatcher itself: who works, and what its queues
  are owed. `Lifespan.Inv` ties it to the history, and `dispatcher_lifecycle`
  reads the life of the dispatcher off both.
-/
namespace WebhookRelay

open Transition

/-! ## The system -/

/-- The dispatcher, the offers made so far and the workers that each suspended
shutdown waits for. -/
structure Lifespan (J : Type) where
  disp : Dispatcher (Nat × J) Unit := {}
  offered : Nat := 0
  shutdowns : List (List Nat) := []

inductive LifespanAct (J : Type) where
  | startup (workerCount queueSize : Int)
  | shutdown
  | gathered (k : Nat)
  | enqueue (job : J)
  | begin (t : Nat)
  | take (t : Nat)
  | jobReturned (t : Nat)
  | jobRaised (t : Nat) (exc : PyExc)
  | cancelled (t : Nat)

inductive LifespanObs where
  | started (workerCount : Int) (q : Nat) (workers : List Nat)
  | kept
  | stopped (workers : List Nat)
  | returned
  | accepted (n q : Nat)
  | refused (n : Nat)
  | unavailable (n : Nat)
  | began (t : Nat)
  | took (t n : Nat)
  | finished (t n : Nat)
  | ended (t : Nat)
  deriving DecidableEq

namespace Lifespan

variable {J : Type}

/-- Whether all the tasks a `gather` waits for have ended. -/
def gathers (d : Dispatcher (Nat × J) Unit) (workers : List Nat) : Bool :=
  workers.all (fun t => match (d.tasks t).state with | .ended => true | _ => false)

def jobDone (s : Lifespan J) (t : Nat) (e : JobEnd) : Option (Lifespan J × LifespanObs) :=
  match Pool.runningTag (s.disp.tasks t), s.disp.jobDone t e with
  | some n, some d => some ({ s with disp := d }, .finished t n)
  | _, _ => none

def step (s : Lifespan J) : LifespanAct J → Option (Lifespan J × LifespanObs)
  | .startup workerCount queueSize =>
    let d := s.disp.startup workerCount queueSize
    some ({ s with disp := d },
      if s.disp.dispatchQueue.isSome then .kept
      else .started workerCount s.disp.nextQueue d.dispatchWorkers)
  | .shutdown =>
    let workers := s.disp.dispatchWorkers
    -- without a worker there is no `gather`
    some ({ s with
      disp := s.disp.shutdown
      shutdowns := if workers.isEmpty then s.shutdowns else s.shutdowns ++ [workers] }, .stopped workers)
  | .gathered k =>
    match s.shutdowns[k]? with
    | none => none
    | some workers =>
      if gathers s.disp workers then some ({ s with shutdowns := s.shutdowns.eraseIdx k }, .returned)
      else none
  | .enqueue job =>
    let next := s.offered + 1
    match s.disp.dispatchQueue, s.disp.enqueue (s.offered, job) with
    | some q, .ok (d, true) => some ({ s with disp := d, offered := next }, .accepted s.offered q)
    | some _, .ok (d, false) => some ({ s with disp := d, offered := next }, .refused s.offered)
    | _, _ => some ({ s with offered := next }, .unavailable s.offered)
  | .begin t => (s.disp.begin t).map (fun d => ({ s with disp := d }, .began t))
  | .take t => (s.disp.take t ()).map (fun r => ({ s with disp := r.1 }, .took t r.2.2.1))
  | .jobReturned t => if (s.disp.tasks t).cancelled then none else s.jobDone t .returned
  | .jobRaised t exc => if (s.disp.tasks t).cancelled then none else s.jobDone t (.raised exc)
  | .cancelled t =>
    match (s.disp.tasks t).state, (s.disp.tasks t).cancelled with
    | .running _ _ _, true => s.jobDone t .cancelled
    | .created, true | .waiting _, true => some ({ s with disp := s.disp.setState t .ended }, .ended t)
    | _, _ => none

/-! ## What is read off a history and a state -/

/-- The worker count of the last startup that found no dispatcher running. -/
def lastStartup (os : List LifespanObs) : Option Int :=
  (os.filterMap (fun o => match o with | .started workerCount _ _ => some workerCount | _ => none)).getLast?

/-- The workers, of all startups so far, that are not cancelled. -/
def uncancelled (s : Lifespan J) : List Nat :=
  (List.range s.disp.nextTask).filter (fun t => !(s.disp.tasks t).cancelled)

/-- What each step does. -/
inductive Move (s : Lifespan J) : Lifespan J → LifespanObs → Prop where
  | started {workerCount queueSize : Int} (hq : s.disp.dispatchQueue = none) :
      Move s { s with disp := s.disp.startup workerCount queueSize }
        (.started workerCount s.disp.nextQueue (s.disp.startup workerCount queueSize).dispatchWorkers)
  | kept : Move s s .kept
  | stopped {shutdowns : List (List Nat)} :
      Move s { s with disp := s.disp.shutdown, shutdowns := shutdowns } (.stopped s.disp.dispatchWorkers)
  | returned {shutdowns : List (List Nat)} : Move s { s with shutdowns := shutdowns } .returned
  | accepted {q : Nat} {job : J} (hq : s.disp.dispatchQueue = some q) :
      Move s { s with
        disp := s.disp.setQueue q { s.disp.queues q with
          items := (s.disp.queues q).items ++ [(s.offered, job)]
          unfinished := (s.disp.queues q).unfinished + 1 }
        offered := s.offered + 1 } (.accepted s.offered q)
  | refused : Move s { s with offered := s.offered + 1 } (.refused s.offered)
  | unavailable : Move s { s with offered := s.offered + 1 } (.unavailable s.offered)
  | began {t q : Nat} (hs : (s.disp.tasks t).state = .created) (hc : (s.disp.tasks t).cancelled = false)
      (hq : s.disp.dispatchQueue = some q) :
      Move s { s with disp := s.disp.setState t (.waiting q) } (.began t)
  | beganLate {t : Nat} (hs : (s.disp.tasks t).state = .created)
      (hc : (s.disp.tasks t).cancelled = false) (hq : s.disp.dispatchQueue = none) :
      Move s { s with disp := s.disp.setState t .ended } (.began t)
  | took {t q : Nat} {job : Nat × J} {rest : List (Nat × J)} (hs : (s.disp.tasks t).state = .waiting q)
      (hc : (s.disp.tasks t).cancelled = false) (hi : (s.disp.queues q).items = job :: rest) :
      Move s { s with
        disp := (s.disp.setQueue q { s.disp.queues q with items := rest }).setState t (.running q job ()) }
        (.took t job.1)
  | finished {t n : Nat} {e : JobEnd} {d : Dispatcher (Nat × J) Unit} (hd : s.disp.jobDone t e = some d)
      (he : (s.disp.tasks t).cancelled = true ∨ e ≠ .cancelled) :
      Move s { s with disp := d } (.finished t n)
  | ended {t : Nat} (hs : (s.disp.tasks t).state = .created ∨ ∃ q, (s.disp.tasks t).state = .waiting q)
      (hc : (s.disp.tasks t).cancelled = true) :
      Move s { s with disp := s.disp.setState t .ended } (.ended t)

theorem Move.of_jobDone {s s' : Lifespan J} {t : Nat} {e : JobEnd} {o : LifespanObs}
    (he : (s.disp.tasks t).cancelled = true ∨ e ≠ .cancelled) (h : s.jobDone t e = some (s', o)) :
    Move s s' o := by
  unfold jobDone at h
  split at h
  · next n d _ hd =>
    simp only [Option.some.injEq, Prod.mk.injEq] at h
    obtain ⟨rfl, rfl⟩ := h
    exact .finished hd he
  · cases h

theorem Move.of_step {s s' : Lifespan J} {a : LifespanAct J} {o : LifespanObs}
    (h : s.step a = some (s', o)) : Move s s' o := by
  cases a with
  | startup workerCount queueSize =>
    simp only [step, Option.some.injEq, Prod.mk.injEq] at h
    obtain ⟨rfl, rfl⟩ := h
    cases hq : s.disp.dispatchQueue with
    | none => exact .started hq
    | some q =>
      rw [Dispatcher.startup_running (by rw [hq]; rfl)]
      exact .kept
  | shutdown =>
    simp only [step, Option.some.injEq, Prod.mk.injEq] at h
    obtain ⟨rfl, rfl⟩ := h
    exact .stopped
  | gathered k =>
    simp only [step] at h
    split at h
    · cases h
    · split at h
      · simp only [Option.some.injEq, Prod.mk.injEq] at h
        obtain ⟨rfl, rfl⟩ := h
        exact .returned
      · cases h
  | enqueue job =>
    simp only [step] at h
    split at h
    · next q d hq he =>
      simp only [Option.some.injEq, Prod.mk.injEq] at h
      obtain ⟨rfl, rfl⟩ := h
      obtain ⟨q', hq', ⟨-, -, rfl⟩ | ⟨hb, -, -⟩⟩ := Dispatcher.enqueue_ok he
      · obtain rfl : q = q' := Option.some.inj (hq.symm.trans hq')
        exact .accepted hq
      · cases hb
    · next q d hq he =>
      simp only [Option.some.injEq, Prod.mk.injEq] at h
      obtain ⟨rfl, rfl⟩ := h
      obtain ⟨q', hq', ⟨hb, -, -⟩ | ⟨-, -, rfl⟩⟩ := Dispatcher.enqueue_ok he
      · cases hb
      · exact .refused
    · simp only [Option.some.injEq, Prod.mk.injEq] at h
      obtain ⟨rfl, rfl⟩ := h
      exact .unavailable
  | begin t =>
    obtain ⟨d, hb, hd⟩ := Option.map_eq_some_iff.mp h
    simp only [Prod.mk.injEq] at hd
    obtain ⟨rfl, rfl⟩ := hd
    obtain ⟨hs, hc, ⟨hq, rfl⟩ | ⟨q, hq, rfl⟩⟩ := Dispatcher.begin_some hb
    · exact .beganLate hs hc hq
    · exact .began hs hc hq
  | take t =>
    obtain ⟨⟨d, q, job⟩, ht, hd⟩ := Option.map_eq_some_iff.mp h
    simp only [Prod.mk.injEq] at hd
    obtain ⟨rfl, rfl⟩ := hd
    obtain ⟨hs, hc, rest, hi, rfl⟩ := Dispatcher.take_some ht
    exact .took hs hc hi
  | jobReturned t =>
    simp only [step] at h
    split at h
    · cases h
    · exact .of_jobDone (.inr (fun he => JobEnd.noConfusion he)) h
  | jobRaised t exc =>
    simp only [step] at h
    split at h
    · cases h
    · exact .of_jobDone (.inr (fun he => JobEnd.noConfusion he)) h
  | cancelled t =>
    simp only [step] at h
    split at h
    · next _ _ _ _ hc => exact .of_jobDone (.inl hc) h
    · next hs hc =>
      simp only [Option.some.injEq, Prod.mk.injEq] at h
      obtain ⟨rfl, rfl⟩ := h
      exact .ended (.inl hs) hc
    · next q hs hc =>
      simp only [Option.some.injEq, Prod.mk.injEq] at h
      obtain ⟨rfl, rfl⟩ := h
      exact .ended (.inr ⟨q, hs⟩) hc
    · cases h

/-- Every step is a step, or none, of the dispatcher. -/
theorem Move.dispatcher {s s' : Lifespan J} {o : LifespanObs} (hm : Move s s' o) : s.disp.Step s'.disp := by
  cases hm with
  | started => exact .startup _ _
  | kept | returned | refused | unavailable => exact .same
  | stopped => exact .shutdown
  | accepted hq => exact .put hq
  | began hs hc hq => exact .began hs hc hq
  | beganLate | ended => exact .ended
  | took hs hc hi => exact .took hs (by rw [hi]; exact nofun)
  | finished hd he => exact .of_jobDone hd

end Lifespan

/-! ## The crew -/

namespace Dispatcher

variable {J P : Type}

/-- What a task owes a queue: the job it has taken. -/
def owes (q : Nat) (task : Task J P) : Nat :=
  match task.state with
  | .running q' _ _ => if q' = q then 1 else 0
  | _ => 0

/-- The workers of the global list are those that are not cancelled, they have
not ended, and what is unfinished on a queue waits in it or is run by a task. -/
structure Crew (d : Dispatcher J P) : Prop where
  alive : ∀ t ∈ d.dispatchWorkers, (d.tasks t).cancelled = false ∧ live (d.tasks t)
  spent : ∀ t < d.nextTask, t ∉ d.dispatchWorkers → (d.tasks t).cancelled = true
  nodup : d.dispatchWorkers.Nodup
  ledger : ∀ q, Ledger (fun t => owes q (d.tasks t)) (d.queues q).unfinished (d.queues q).items.length

variable {d : Dispatcher J P}

/-- `task_done` does not raise for a task that runs a job. -/
theorem Crew.unfinished_pos (h : Crew d) {t q : Nat} {job : J} {pos : P}
    (hs : (d.tasks t).state = .running q job pos) : 0 < (d.queues q).unfinished := by
  have hone : owes q (d.tasks t) = 1 := by
    rw [owes, hs]
    exact if_pos rfl
  have hle := (h.ledger q).slot_le t
  omega

/-- A step of one task, with at most one queue. -/
theorem Crew.turn (h : Crew d) {t q : Nat} {Q : Queue J} {st : TaskState J P}
    (hlive : (d.tasks t).cancelled = true ∨ live { d.tasks t with state := st })
    (hq : Q.unfinished + (d.queues q).items.length + owes q (d.tasks t) =
      (d.queues q).unfinished + Q.items.length + owes q { d.tasks t with state := st })
    (hother : ∀ r, r ≠ q → owes r { d.tasks t with state := st } = owes r (d.tasks t)) :
    Crew ((d.setQueue q Q).setState t st) := by
  have hsame : ∀ u, u ≠ t → ((d.setQueue q Q).setState t st).tasks u = d.tasks u := by
    intro u hu
    rw [setState_tasks, setQueue_tasks, Function.update_of_ne hu]
  have hself : ((d.setQueue q Q).setState t st).tasks t = { d.tasks t with state := st } := by
    rw [setState_tasks, setQueue_tasks, Function.update_self]
  refine ⟨?_, ?_, h.nodup, ?_⟩
  · intro u hu
    obtain ⟨hc, hl⟩ := h.alive u hu
    by_cases hut : u = t
    · subst hut
      rw [hself]
      refine ⟨hc, hlive.resolve_left ?_⟩
      rw [hc]
      exact Bool.false_ne_true
    · rw [hsame u hut]
      exact ⟨hc, hl⟩
  · intro u hu hnot
    have hold := h.spent u hu hnot
    by_cases hut : u = t
    · subst hut
      rw [hself]
      exact hold
    · rw [hsame u hut]
      exact hold
  · intro r
    have hslots : ∀ u, u ≠ t →
        owes r (((d.setQueue q Q).setState t st).tasks u) = owes r (d.tasks u) := by
      intro u hu
      rw [hsame u hu]
    apply (h.ledger r).move hslots
    simp only [hself, setState_queues, setQueue_queues]
    by_cases hr : r = q
    · subst hr
      rw [Function.update_self]
      exact hq
    · rw [Function.update_of_ne hr, hother r hr]

/-- A step of one task that leaves the queues alone. -/
theorem Crew.setState (h : Crew d) {t : Nat} {st : TaskState J P}
    (hlive : (d.tasks t).cancelled = true ∨ live { d.tasks t with state := st })
    (howes : ∀ r, owes r { d.tasks t with state := st } = owes r (d.tasks t)) : Crew (d.setState t st) := by
  have hturn := h.turn (q := 0) (Q := d.queues 0) hlive (by rw [howes]) (fun r _ => howes r)
  rwa [setQueue, Function.update_eq_self] at hturn

theorem Crew.put (h : Crew d) {q : Nat} (job : J) :
    Crew (d.setQueue q { d.queues q with
      items := (d.queues q).items ++ [job]
      unfinished := (d.queues q).unfinished + 1 }) := by
  refine ⟨h.alive, h.spent, h.nodup, ?_⟩
  intro r
  have hold := h.ledger r
  simp only [setQueue_tasks, setQueue_queues]
  by_cases hr : r = q
  · subst hr
    rw [Function.update_self]
    apply hold.move (i := 0) (fun _ _ => rfl)
    simp only [List.length_append, List.length_singleton]
    omega
  · rw [Function.update_of_ne hr]
    exact hold

/-- The workers of a startup are new tasks, and its queue is a new queue. -/
theorem Crew.startup (h : Crew d) (hwf : d.WF) (hq : d.dispatchQueue = none) (workerCount queueSize : Int) :
    Crew (d.startup workerCount queueSize) := by
  rw [startup_idle hq]
  refine ⟨?_, ?_, List.nodup_range', ?_⟩
  · intro t ht
    simp only [if_pos ht, live, and_true]
  · intro t ht hnot
    simp only [if_neg hnot]
    apply h.spent
    · rw [List.mem_range'_1] at hnot
      simp only at ht
      omega
    · rw [hwf.stopped hq]
      exact List.not_mem_nil
  · intro r
    -- neither a new task nor the number it takes owed anything before
    have hslots : (fun t => owes r (if t ∈ List.range' d.nextTask (max workerCount 1).toNat then
        { state := .created } else d.tasks t)) = fun t => owes r (d.tasks t) := by
      funext t
      split
      · next ht =>
        have hborn := hwf.unborn t (List.mem_range'_1.mp ht).1
        rw [owes, owes, hborn]
      · rfl
    simp only [hslots]
    by_cases hr : r = d.nextQueue
    · subst hr
      rw [Function.update_self]
      apply Ledger.empty
      intro t
      -- nobody serves a queue that does not exist yet
      unfold owes
      split
      · next q' _ _ hs =>
        have hlt := hwf.served_lt t q' (by rw [serves, hs])
        exact if_neg (Nat.ne_of_lt hlt)
      · rfl
    · rw [Function.update_of_ne hr]
      exact h.ledger r

theorem Crew.shutdown (h : Crew d) : Crew d.shutdown := by
  refine ⟨nofun, ?_, List.nodup_nil, ?_⟩
  · intro t ht _
    rw [shutdown_cancelled]
    by_cases hmem : t ∈ d.dispatchWorkers
    · exact .inl hmem
    · exact .inr (h.spent t ht hmem)
  · intro r
    have hslots : (fun t => owes r (d.shutdown.tasks t)) = fun t => owes r (d.tasks t) := by
      funext t
      rw [owes, owes, shutdown_state]
    rw [hslots]
    exact h.ledger r

/-- The end of a job ends its worker only by a cancellation. -/
theorem Crew.jobDone (h : Crew d) {d' : Dispatcher J P} {t : Nat} {e : JobEnd}
    (hd : d.jobDone t e = some d') (he : (d.tasks t).cancelled = true ∨ e ≠ .cancelled) : Crew d' := by
  obtain ⟨q, job, pos, hs, ⟨hzero, -⟩ | ⟨hpos, rfl⟩⟩ := jobDone_some hd
  · exact absurd hzero (Nat.ne_of_gt (h.unfinished_pos hs))
  · have hold : ∀ r, owes r (d.tasks t) = if q = r then 1 else 0 := by
      intro r
      rw [owes, hs]
    have hnew : ∀ r, owes r ({ d.tasks t with state := afterEnd q e } : Task J P) = 0 := by
      intro r
      cases e with
      | returned | raised _ | cancelled => rfl
    apply h.turn
    · cases e with
      | returned | raised _ => exact .inr trivial
      | cancelled => exact .inl (he.resolve_right (fun hne => hne rfl))
    · rw [hold, hnew, if_pos rfl]
      simp only
      omega
    · intro r hr
      rw [hold, hnew, if_neg (Ne.symm hr)]

/-! ## Workers and their queue -/

/-- Task `t` is a worker of the startup that made queue `q`: it serves no other
queue, and is not cancelled only while that one is the current queue. -/
structure Bound (d : Dispatcher J P) (q t : Nat) : Prop where
  born : t < d.nextTask
  serves : ∀ r, serves (d.tasks t) = some r → r = q
  current : (d.tasks t).cancelled = false → d.dispatchQueue = some q

theorem Bound.setState {q t u : Nat} {st : TaskState J P} (h : Bound d q t)
    (hserve : ∀ r, Dispatcher.serves { d.tasks u with state := st } = some r →
      Dispatcher.serves (d.tasks u) = some r ∨ (d.dispatchQueue = some r ∧ (d.tasks u).cancelled = false)) :
    Bound (d.setState u st) q t := by
  by_cases hut : t = u
  · subst hut
    refine ⟨h.born, ?_, ?_⟩
    · intro r hr
      rw [setState_tasks, Function.update_self] at hr
      obtain hold | ⟨hcur, hc⟩ := hserve r hr
      · exact h.serves r hold
      · exact Option.some.inj (hcur.symm.trans (h.current hc))
    · intro hc
      rw [setState_tasks, Function.update_self] at hc
      exact h.current hc
  · have hsame : (d.setState u st).tasks t = d.tasks t := by
      rw [setState_tasks, Function.update_of_ne hut]
    refine ⟨h.born, ?_, ?_⟩
    · rw [hsame]
      exact h.serves
    · rw [hsame]
      exact h.current

theorem Bound.setQueue {q t r : Nat} {Q : Queue J} (h : Bound d q t) : Bound (d.setQueue r Q) q t :=
  ⟨h.born, h.serves, h.current⟩

theorem Bound.startup {q t : Nat} (h : Bound d q t) (workerCount queueSize : Int) :
    Bound (d.startup workerCount queueSize) q t := by
  cases hq : d.dispatchQueue with
  | some r =>
    rw [startup_running (by rw [hq]; rfl)]
    exact h
  | none =>
    rw [startup_idle hq]
    have hnot : t ∉ List.range' d.nextTask (max workerCount 1).toNat := by
      intro hmem
      exact Nat.not_le.mpr h.born (List.mem_range'_1.mp hmem).1
    refine ⟨?_, ?_, ?_⟩
    · exact Nat.lt_of_lt_of_le h.born (Nat.le_add_right _ _)
    · simp only [if_neg hnot]
      exact h.serves
    · -- without a queue no task of an earlier startup is uncancelled
      intro hc
      simp only [if_neg hnot] at hc
      have hcur := h.current hc
      rw [hq] at hcur
      cases hcur

theorem Bound.shutdown {q t : Nat} (h : Bound d q t) (hcrew : Crew d) : Bound d.shutdown q t := by
  refine ⟨h.born, ?_, ?_⟩
  · intro r hr
    rw [Dispatcher.serves, shutdown_state] at hr
    exact h.serves r hr
  · intro hc
    rw [← Bool.not_eq_true, shutdown_cancelled, not_or] at hc
    exact absurd (hcrew.spent t h.born hc.1) hc.2

theorem Bound.step {d' : Dispatcher J P} {q t : Nat} (h : Bound d q t) (hcrew : Crew d) (hs : d.Step d') :
    Bound d' q t := by
  cases hs with
  | same => exact h
  | startup workerCount queueSize => exact h.startup workerCount queueSize
  | shutdown => exact h.shutdown hcrew
  | put hq => exact h.setQueue
  | began hs hc hq =>
    apply h.setState
    intro r hr
    cases hr
    exact .inr ⟨hq, hc⟩
  | took hs hi =>
    apply h.setQueue.setState
    intro r hr
    cases hr
    exact .inl (by rw [setQueue_tasks, Dispatcher.serves, hs])
  | moved hs =>
    apply h.setState
    intro r hr
    cases hr
    exact .inl (by rw [Dispatcher.serves, hs])
  | finished hs hQ =>
    apply h.setQueue.setState
    intro r hr
    cases hr
    exact .inl (by rw [setQueue_tasks, Dispatcher.serves, hs])
  | dropped hQ =>
    apply h.setQueue.setState
    intro r hr
    cases hr
  | ended =>
    apply h.setState
    intro r hr
    cases hr

/-- The workers of a startup are bound to its queue. -/
theorem Bound.of_startup {t : Nat} {workerCount queueSize : Int} (hq : d.dispatchQueue = none)
    (ht : t ∈ (d.startup workerCount queueSize).dispatchWorkers) :
    Bound (d.startup workerCount queueSize) d.nextQueue t := by
  rw [startup_idle hq] at ht ⊢
  refine ⟨(List.mem_range'_1.mp ht).2, ?_, fun _ => rfl⟩
  · intro r hr
    simp only [if_pos ht] at hr
    cases hr

theorem Step.nextTask_le {d' : Dispatcher J P} (hs : d.Step d') : d.nextTask ≤ d'.nextTask := by
  cases hs with
  | startup workerCount queueSize =>
    cases hq : d.dispatchQueue with
    | some q => rw [startup_running (by rw [hq]; rfl)]
    | none =>
      rw [startup_idle hq]
      exact Nat.le_add_right _ _
  | same | shutdown | put | began | took | moved | finished | dropped | ended => exact Nat.le_refl _

/-- A queue that has been made and is not the current one, and so never will be. -/
structure GivenUp (d : Dispatcher J P) (q : Nat) : Prop where
  made : q < d.nextQueue
  left : d.dispatchQueue ≠ some q

theorem Step.nextQueue_le {d' : Dispatcher J P} (hs : d.Step d') : d.nextQueue ≤ d'.nextQueue := by
  cases hs with
  | startup workerCount queueSize =>
    cases hq : d.dispatchQueue with
    | some q => rw [startup_running (by rw [hq]; rfl)]
    | none =>
      rw [startup_idle hq]
      exact Nat.le_succ _
  | same | shutdown | put | began | took | moved | finished | dropped | ended => exact Nat.le_refl _

theorem GivenUp.step {d' : Dispatcher J P} {q : Nat} (h : GivenUp d q) (hs : d.Step d') : GivenUp d' q := by
  refine ⟨Nat.lt_of_lt_of_le h.made hs.nextQueue_le, ?_⟩
  cases hs with
  | startup workerCount queueSize =>
    cases hq : d.dispatchQueue with
    | some r =>
      rw [startup_running (by rw [hq]; rfl)]
      exact h.left
    | none =>
      rw [startup_idle hq]
      intro heq
      exact Nat.ne_of_lt h.made (Option.some.inj heq).symm
  | shutdown => exact nofun
  | same | put | began | took | moved | finished | dropped | ended => exact h.left

end Dispatcher

namespace Lifespan

variable {J : Type}

open Dispatcher

theorem Move.crew {s s' : Lifespan J} {o : LifespanObs} (hm : Move s s' o) (hwf : s.disp.WF) (h : Crew s.disp) :
    Crew s'.disp := by
  cases hm with
  | started hq => exact h.startup hwf hq _ _
  | kept | returned | refused | unavailable => exact h
  | stopped => exact h.shutdown
  | accepted hq => exact h.put _
  | @began t q hs hc hq =>
    apply h.setState
    · exact .inr trivial
    · intro r
      simp only [owes, hs]
  | @beganLate t hs hc hq =>
    -- an uncancelled task is a worker of the running dispatcher
    have hmem := hwf.current t hc (by rw [live, hs]; trivial)
    rw [hwf.stopped hq] at hmem
    cases hmem
  | @took t q job rest hs hc hi =>
    apply h.turn
    · exact .inr trivial
    · simp only [hi, owes, hs, List.length_cons, if_true]
      omega
    · intro r hr
      simp only [owes, hs, if_neg (Ne.symm hr)]
  | finished hd he => exact h.jobDone hd he
  | @ended t hs hc =>
    apply h.setState (.inl hc)
    intro r
    obtain hs | ⟨q, hs⟩ := hs
    · simp only [owes, hs]
    · simp only [owes, hs]

/-! ## The history -/

/-- The invariant: jobs in a queue were accepted to it, an offer goes to one
queue, and the workers of a startup take jobs from its queue alone. -/
structure Inv (s : Lifespan J) (os : List LifespanObs) : Prop where
  wf : s.disp.WF
  crew : Crew s.disp
  staff : ∀ q, s.disp.dispatchQueue = some q → ∃ workerCount, lastStartup os = some workerCount ∧
    s.disp.dispatchWorkers.length = (max workerCount 1).toNat
  queued : ∀ q, ∀ job ∈ (s.disp.queues q).items, .accepted job.1 q ∈ os
  offered : ∀ n q, .accepted n q ∈ os → n < s.offered
  once : ∀ n q r, .accepted n q ∈ os → .accepted n r ∈ os → q = r
  bound : ∀ workerCount q workers, .started workerCount q workers ∈ os → ∀ t ∈ workers, Bound s.disp q t
  born : ∀ t n, .took t n ∈ os → t < s.disp.nextTask
  taken : ∀ workerCount q workers t n, .started workerCount q workers ∈ os → t ∈ workers →
    .took t n ∈ os → .accepted n q ∈ os

variable {s s' : Lifespan J} {os : List LifespanObs} {o : LifespanObs}

theorem mem_snoc {o' : LifespanObs} (h : o' ∈ os ++ [o]) : o' ∈ os ∨ o = o' := by
  obtain hold | hnew := List.mem_append.mp h
  · exact .inl hold
  · exact .inr (List.mem_singleton.mp hnew).symm

/-- A job that waits was waiting before, or has just been accepted. -/
theorem Move.items (hm : Move s s' o) {r : Nat} {job : Nat × J} (hjob : job ∈ (s'.disp.queues r).items) :
    job ∈ (s.disp.queues r).items ∨ o = .accepted job.1 r := by
  have at_queue : ∀ {q : Nat} {Q : Queue (Nat × J)},
      job ∈ (Function.update s.disp.queues q Q r).items →
        (r = q ∧ job ∈ Q.items) ∨ job ∈ (s.disp.queues r).items := by
    intro q Q h
    by_cases hr : r = q
    · subst hr
      rw [Function.update_self] at h
      exact .inl ⟨rfl, h⟩
    · rw [Function.update_of_ne hr] at h
      exact .inr h
  cases hm with
  | kept | stopped | returned | refused | unavailable | began | beganLate | ended => exact .inl hjob
  | started hq =>
    rw [startup_idle hq] at hjob
    obtain ⟨-, hnil⟩ | hold := at_queue hjob
    · cases hnil
    · exact .inl hold
  | accepted hq =>
    obtain ⟨rfl, hmem⟩ | hold := at_queue hjob
    · obtain hold | hnew := List.mem_append.mp hmem
      · exact .inl hold
      · obtain rfl := List.mem_singleton.mp hnew
        exact .inr rfl
    · exact .inl hold
  | took hs hc hi =>
    obtain ⟨rfl, hmem⟩ | hold := at_queue hjob
    · rw [hi]
      exact .inl (List.mem_cons_of_mem _ hmem)
    · exact .inl hold
  | finished hd he =>
    obtain ⟨q, _, _, -, ⟨-, rfl⟩ | ⟨-, rfl⟩⟩ := jobDone_some hd
    · exact .inl hjob
    · obtain ⟨rfl, hmem⟩ | hold := at_queue hjob
      · exact .inl hmem
      · exact .inl hold

theorem Move.offered_le (hm : Move s s' o) : s.offered ≤ s'.offered := by
  cases hm with
  | started | kept | stopped | returned | began | beganLate | took | finished | ended => exact Nat.le_refl _
  | accepted | refused | unavailable => exact Nat.le_succ _

/-- The globals change only at a startup and at a shutdown. -/
theorem Move.globals (hm : Move s s' o) (os : List LifespanObs) :
    (∃ workerCount, lastStartup (os ++ [o]) = some workerCount ∧
      s'.disp.dispatchWorkers.length = (max workerCount 1).toNat) ∨
    s'.disp.dispatchQueue = none ∨
    (s'.disp.dispatchQueue = s.disp.dispatchQueue ∧ s'.disp.dispatchWorkers = s.disp.dispatchWorkers ∧
      lastStartup (os ++ [o]) = lastStartup os) := by
  cases hm with
  | @started workerCount queueSize hq =>
    refine .inl ⟨workerCount, ?_, ?_⟩
    · simp [lastStartup]
    · rw [startup_idle hq, List.length_range']
  | stopped => exact .inr (.inl rfl)
  | kept | returned | accepted | refused | unavailable | began | beganLate | took | ended =>
    exact .inr (.inr ⟨rfl, rfl, by simp [lastStartup]⟩)
  | finished hd he =>
    obtain ⟨hq, hw, -, -⟩ := jobDone_globals hd
    exact .inr (.inr ⟨hq, hw, by simp [lastStartup]⟩)

theorem inv_init : Inv ({} : Lifespan J) [] := by
  have hcrew : Crew ({} : Dispatcher (Nat × J) Unit) :=
    ⟨nofun, nofun, List.nodup_nil, fun _ => .empty (fun _ => rfl)⟩
  exact ⟨.init, hcrew, nofun, nofun, nofun, nofun, nofun, nofun, nofun⟩

theorem inv_step (h : Inv s os) (hm : Move s s' o) : Inv s' (os ++ [o]) := by
  refine ⟨h.wf.step hm.dispatcher, hm.crew h.wf h.crew, ?_, ?_, ?_, ?_, ?_, ?_, ?_⟩
  · intro q hq
    obtain hnew | hnone | ⟨hsame, hworkers, hlast⟩ := hm.globals os
    · exact hnew
    · rw [hnone] at hq
      cases hq
    · rw [hlast, hworkers]
      exact h.staff q (hsame ▸ hq)
  · intro r job hjob
    obtain hold | rfl := hm.items hjob
    · exact List.mem_append_left _ (h.queued r job hold)
    · exact List.mem_append_right _ (List.mem_singleton_self _)
  · intro n q hmem
    obtain hold | rfl := mem_snoc hmem
    · exact Nat.lt_of_lt_of_le (h.offered n q hold) hm.offered_le
    · cases hm
      exact Nat.lt_succ_self _
  · intro n q r hq hr
    have hfresh : ∀ {q' : Nat}, .accepted n q' ∈ os → o ≠ .accepted n r ∧ o ≠ .accepted n q := by
      intro q' hold
      have hlt := h.offered n q' hold
      refine ⟨?_, ?_⟩
      · intro heq
        obtain rfl := heq
        cases hm
        exact Nat.lt_irrefl _ hlt
      · intro heq
        obtain rfl := heq
        cases hm
        exact Nat.lt_irrefl _ hlt
    obtain hq | hq := mem_snoc hq
    · obtain hr | hr := mem_snoc hr
      · exact h.once n q r hq hr
      · exact absurd hr (hfresh hq).1
    · obtain hr | hr := mem_snoc hr
      · exact absurd hq (hfresh hr).2
      · have heq := hq.symm.trans hr
        cases heq
        rfl
  · intro workerCount q workers hmem t ht
    obtain hold | rfl := mem_snoc hmem
    · exact (h.bound workerCount q workers hold t ht).step h.crew hm.dispatcher
    · cases hm with
      | started hq => exact .of_startup hq ht
  · intro t n hmem
    obtain hold | rfl := mem_snoc hmem
    · exact Nat.lt_of_lt_of_le (h.born t n hold) hm.dispatcher.nextTask_le
    · cases hm with
      | took hs hc hi =>
        apply Nat.lt_of_not_le
        intro hle
        have hborn := h.wf.unborn t hle
        rw [hs] at hborn
        cases hborn
  · intro workerCount q workers t n hstart ht htook
    obtain hold | rfl := mem_snoc htook
    · obtain hstart | rfl := mem_snoc hstart
      · exact List.mem_append_left _ (h.taken workerCount q workers t n hstart ht hold)
      · -- a task that has taken a job is not one of a startup to come
        have hborn := h.born t n hold
        cases hm with
        | started hq =>
          rw [startup_idle hq] at ht
          exact absurd (List.mem_range'_1.mp ht).1 (Nat.not_le.mpr hborn)
    · obtain hstart | hstart := mem_snoc hstart
      · have hbound := h.bound workerCount q workers hstart t ht
        cases hm with
        | took hs hc hi =>
          obtain rfl := hbound.serves _ (by rw [serves, hs])
          apply List.mem_append_left
          apply h.queued
          rw [hi]
          exact List.mem_cons_self
      · cases hstart

theorem inv_run {as : List (LifespanAct J)} (h : Run step {} as os s) : Inv s os :=
  h.history inv_init (fun _ _ _ _ _ hi hs => inv_step hi (.of_step hs))

/-! ## The life of the dispatcher -/

theorem Inv.queue_iff (h : Inv s os) : s.disp.dispatchQueue = none ↔ s.disp.dispatchWorkers = [] := by
  refine ⟨h.wf.stopped, ?_⟩
  intro hnil
  cases hq : s.disp.dispatchQueue with
  | none => rfl
  | some q =>
    obtain ⟨workerCount, -, hlen⟩ := h.staff q hq
    rw [hnil, List.length_nil] at hlen
    omega

/-- The workers that are not cancelled are those of the global list. -/
theorem Inv.uncancelled_perm (h : Inv s os) : s.uncancelled.Perm s.disp.dispatchWorkers := by
  apply (List.perm_ext_iff_of_nodup (List.nodup_range.filter _) h.crew.nodup).mpr
  intro t
  rw [List.mem_filter, List.mem_range, Bool.not_eq_true']
  constructor
  · intro h'
    obtain ⟨hlt, hc⟩ := h'
    apply Decidable.byContradiction
    intro hnot
    rw [h.crew.spent t hlt hnot] at hc
    cases hc
  · intro hmem
    exact ⟨h.wf.workers t hmem, (h.crew.alive t hmem).1⟩

/-- After the shutdown of a dispatcher no offer goes to its queue. -/
theorem not_accepted {as : List (LifespanAct J)} {l m k r : List LifespanObs} {workerCount : Int} {q q' n : Nat}
    {workers workers' : List Nat} (h : Run step {} as (l ++ .started workerCount q workers ::
      (m ++ .stopped workers' :: (k ++ .accepted n q' :: r))) s) : q' ≠ q := by
  obtain ⟨_, _, _, s₀, s₁, -, -, hstart, hrest⟩ := h.cut
  obtain ⟨_, _, _, s₂, s₃, -, hmid, hstop, hrest⟩ := hrest.cut
  obtain ⟨_, _, _, s₄, s₅, -, hlate, haccept, -⟩ := hrest.cut
  have hmade : q < s₁.disp.nextQueue := by
    cases Move.of_step hstart with
    | started hq =>
      rw [startup_idle hq]
      exact Nat.lt_succ_self _
  have hkept : q < s₂.disp.nextQueue :=
    hmid.stable (A := fun _ => True) (fun _ _ => trivial) hmade
      (fun _ _ _ _ hlt _ hs => Nat.lt_of_lt_of_le hlt (Move.of_step hs).dispatcher.nextQueue_le)
  have hstopped : GivenUp s₃.disp q := by
    cases Move.of_step hstop with
    | stopped => exact ⟨hkept, (Option.some_ne_none q).symm⟩
  have hgiven : GivenUp s₄.disp q :=
    hlate.stable (I := fun u => GivenUp u.disp q) (A := fun _ => True) (fun _ _ => trivial) hstopped
      (fun _ _ _ _ hg _ hs => hg.step (Move.of_step hs).dispatcher)
  cases Move.of_step haccept with
  | accepted hq =>
    intro heq
    exact hgiven.left (heq ▸ hq)

/-- **The dispatcher over its whole life.** After any order of startups,
shutdowns, offers and worker steps: there is a queue exactly while there are
workers; a startup of a running dispatcher changes nothing; the workers that are
not cancelled are as many as the last startup asked for, and none without a
queue; those that have begun serve the current queue; and no worker of a startup
takes a job that was accepted after its shutdown. -/
theorem dispatcher_lifecycle {as : List (LifespanAct J)} (h : Run step {} as os s) :
    (s.disp.dispatchQueue = none ↔ s.disp.dispatchWorkers = []) ∧
      (∀ workerCount queueSize, s.disp.dispatchQueue ≠ none →
        s.step (.startup workerCount queueSize) = some (s, .kept)) ∧
      (s.disp.dispatchQueue = none → s.uncancelled = []) ∧
      (s.disp.dispatchQueue ≠ none → ∃ workerCount, lastStartup os = some workerCount ∧
        s.uncancelled.length = (max workerCount 1).toNat) ∧
      (∀ t ∈ s.uncancelled, (s.disp.tasks t).state ≠ .created →
        ∃ q, s.disp.dispatchQueue = some q ∧ serves (s.disp.tasks t) = some q) ∧
      ∀ l m k r workerCount q q' workers workers' n,
        os = l ++ .started workerCount q workers :: (m ++ .stopped workers' :: (k ++ .accepted n q' :: r)) →
          ∀ t ∈ workers, .took t n ∉ os := by
  have hi := inv_run h
  refine ⟨hi.queue_iff, ?_, ?_, ?_, ?_, ?_⟩
  · intro workerCount queueSize hq
    have hsome : s.disp.dispatchQueue.isSome := Option.isSome_iff_ne_none.mpr hq
    simp only [step, startup_running hsome, if_pos hsome]
  · intro hq
    have hperm := hi.uncancelled_perm
    rw [hi.queue_iff.mp hq] at hperm
    exact hperm.eq_nil
  · intro hq
    obtain ⟨q, hq⟩ := Option.ne_none_iff_exists'.mp hq
    obtain ⟨workerCount, hlast, hlen⟩ := hi.staff q hq
    exact ⟨workerCount, hlast, hi.uncancelled_perm.length_eq.trans hlen⟩
  · intro t ht hbegun
    obtain ⟨hc, hlive⟩ := hi.crew.alive t (hi.uncancelled_perm.mem_iff.mp ht)
    -- it has begun and has not ended, so it serves some queue
    obtain ⟨q, hq⟩ : ∃ q, serves (s.disp.tasks t) = some q := by
      unfold live at hlive
      unfold serves
      split at hlive
      · exact hlive.elim
      · next hs => exact absurd hs hbegun
      · next q hs => exact ⟨q, by rw [hs]⟩
      · next q _ _ hs => exact ⟨q, by rw [hs]⟩
    exact ⟨q, hi.wf.serving t q hc hq, hq⟩
  · intro l m k r workerCount q q' workers workers' n hos t ht htook
    subst hos
    have hstart : .started workerCount q workers ∈
        l ++ .started workerCount q workers :: (m ++ .stopped workers' :: (k ++ .accepted n q' :: r)) := by
      simp
    have haccept : .accepted n q' ∈
        l ++ .started workerCount q workers :: (m ++ .stopped workers' :: (k ++ .accepted n q' :: r)) := by
      simp
    have hown := hi.taken workerCount q workers t n hstart ht htook
    exact not_accepted h (hi.once n q' q haccept hown)

def overlappingLifespans : List (LifespanAct Unit) :=
  [.startup 2 1, .begin 0, .enqueue (), .take 0, .shutdown, .startup 1 5, .enqueue (), .cancelled 0,
    .cancelled 1, .gathered 0, .startup 7 7, .begin 2, .take 2]

/-- A second startup slips in while the first dispatcher's workers, one busy and
one that never began, are still to end. -/
theorem dispatcher_lifecycle_overlapping :
    ∃ (s : Lifespan Unit) (os : List LifespanObs),
      Transition.exec step {} overlappingLifespans = some (s, os) ∧
        s.disp.dispatchQueue = some 1 ∧ s.uncancelled = [2] ∧ .took 2 1 ∈ os ∧
        ∀ l m k r workerCount q q' workers workers' n,
          os = l ++ .started workerCount q workers :: (m ++ .stopped workers' :: (k ++ .accepted n q' :: r)) →
            ∀ t ∈ workers, .took t n ∉ os := by
  have bound : ∀ (s : Lifespan Unit) (os : List LifespanObs),
      Transition.exec step {} overlappingLifespans = some (s, os) →
        ∀ l m k r workerCount q q' workers workers' n,
          os = l ++ .started workerCount q workers :: (m ++ .stopped workers' :: (k ++ .accepted n q' :: r)) →
            ∀ t ∈ workers, .took t n ∉ os := by
    intro s os hrun
    obtain ⟨-, -, -, -, -, htaken⟩ := dispatcher_lifecycle (Run.of_exec hrun)
    exact htaken
  exact ⟨_, _, rfl, rfl, rfl, by decide, bound _ _ rfl⟩

end Lifespan

end WebhookRelay
