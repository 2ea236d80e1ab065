import Mathlib.Data.List.Nodup
import Mathlib.Logic.Function.Basic
import WebhookRelay.Models
import WebhookRelay.Transition

/-
  The relay dispatcher of services/relay.py: a bounded `asyncio.Queue`, a pool
  of worker tasks, and the module's globals that point at them. Queues and
  tasks are objects on a heap, named by numbers, since a worker keeps the queue
  it read from the global when it began.

  Jobs (`J`) and their positions (`P`) are parameters: the dispatcher only
  moves them. A cancelled task never runs another line of a job; all it can do
  is end, through the `finally` of the worker's loop.
-/
namespace WebhookRelay

/-! ## asyncio.Queue -/

structure Queue (J : Type) where
  maxsize : Int
  items : List J := []
  unfinished : Nat := 0

namespace Queue

variable {J : Type}

def full (q : Queue J) : Bool :=
  if q.maxsize ≤ 0 then false else q.maxsize ≤ q.items.length

/-- `put_nowait`; `none` is QueueFull. -/
def putNowait (q : Queue J) (job : J) : Option (Queue J) :=
  if q.full then none
  else some { q with items := q.items ++ [job], unfinished := q.unfinished + 1 }

/-- `get`, when there is an item. -/
def getNowait (q : Queue J) : Option (J × Queue J) :=
  match q.items with
  | [] => none
  | job :: rest => some (job, { q with items := rest })

/-- `task_done`; `none` is ValueError. -/
def taskDone (q : Queue J) : Option (Queue J) :=
  if q.unfinished = 0 then none else some { q with unfinished := q.unfinished - 1 }

end Queue

/-! ## Tasks and globals -/

inductive TaskState (J P : Type) where
  | created
  | waiting (q : Nat)
  | running (q : Nat) (job : J) (pos : P)
  | ended

structure Task (J P : Type) where
  state : TaskState J P
  cancelled : Bool := false

/-- How the body of a worker's loop ends. -/
inductive JobEnd where
  | returned
  | raised (exc : PyExc)
  | cancelled

/-- The globals `_dispatch_queue` and `_dispatch_workers`, and the heap. -/
structure Dispatcher (J P : Type) where
  dispatchQueue : Option Nat := none
  dispatchWorkers : List Nat := []
  queues : Nat → Queue J := fun _ => { maxsize := 1 }
  nextQueue : Nat := 0
  tasks : Nat → Task J P := fun _ => { state := .ended }
  nextTask : Nat := 0

namespace Dispatcher

variable {J P : Type}

def setQueue (d : Dispatcher J P) (q : Nat) (Q : Queue J) : Dispatcher J P :=
  { d with queues := Function.update d.queues q Q }

def setState (d : Dispatcher J P) (t : Nat) (s : TaskState J P) : Dispatcher J P :=
  { d with tasks := Function.update d.tasks t { d.tasks t with state := s } }

/-- `startup_relay_dispatcher`. -/
def startup (d : Dispatcher J P) (workerCount queueSize : Int) : Dispatcher J P :=
  if d.dispatchQueue.isSome then d
  else
    let workers := List.range' d.nextTask (max workerCount 1).toNat
    { dispatchQueue := some d.nextQueue
      dispatchWorkers := workers
      queues := Function.update d.queues d.nextQueue { maxsize := max queueSize 1 }
      nextQueue := d.nextQueue + 1
      tasks := fun t => if t ∈ workers then { state := .created } else d.tasks t
      nextTask := d.nextTask + workers.length }

/-- `shutdown_relay_dispatcher`, up to its `gather`. -/
def shutdown (d : Dispatcher J P) : Dispatcher J P :=
  { d with
    dispatchQueue := none
    dispatchWorkers := []
    tasks := fun t =>
      if t ∈ d.dispatchWorkers then { d.tasks t with cancelled := true } else d.tasks t }

/-- `enqueue_relay_job`. -/
def enqueue (d : Dispatcher J P) (job : J) : Except PyExc (Dispatcher J P × Bool) :=
  match d.dispatchQueue with
  | none => .error (.runtimeError "Relay dispatcher is not initialized")
  | some q =>
    match (d.queues q).putNowait job with
    | some Q => .ok (d.setQueue q Q, true)
    | none => .ok (d, false)

/-- `relay_queue_has_capacity`. -/
def hasCapacity (d : Dispatcher J P) : Except PyExc Bool :=
  match d.dispatchQueue with
  | none => .error (.runtimeError "Relay dispatcher is not initialized")
  | some q => .ok (((d.queues q).items.length : Int) < (d.queues q).maxsize)

/-- A created worker runs up to its first `await`. -/
def begin (d : Dispatcher J P) (t : Nat) : Option (Dispatcher J P) :=
  match (d.tasks t).state, (d.tasks t).cancelled with
  | .created, false =>
    -- the global is read now, not when the task was created
    match d.dispatchQueue with
    | none => some (d.setState t .ended)
    | some q => some (d.setState t (.waiting q))
  | _, _ => none

/-- A waiting worker gets a job from its queue and is about to run it. -/
def take (d : Dispatcher J P) (t : Nat) (start : P) : Option (Dispatcher J P × Nat × J) :=
  match (d.tasks t).state, (d.tasks t).cancelled with
  | .waiting q, false =>
    match (d.queues q).getNowait with
    | none => none
    | some (job, Q) => some ((d.setQueue q Q).setState t (.running q job start), q, job)
  | _, _ => none

/-- Where a worker of queue `q` goes when its job has ended: an exception is
logged and the loop goes on, a cancellation is raised again. -/
def afterEnd (q : Nat) : JobEnd → TaskState J P
  | .returned => .waiting q
  | .raised _ => .waiting q
  | .cancelled => .ended

/-- The `except` and `finally` clauses of the worker's loop. -/
def jobDone (d : Dispatcher J P) (t : Nat) (e : JobEnd) : Option (Dispatcher J P) :=
  match (d.tasks t).state with
  | .running q _ _ =>
    match (d.queues q).taskDone with
    -- a ValueError in the `finally` leaves the loop
    | none => some (d.setState t .ended)
    | some Q => some ((d.setQueue q Q).setState t (afterEnd q e))
  | _ => none

/-! ## What the operations do -/

@[simp] theorem setQueue_dispatchQueue (d : Dispatcher J P) (q : Nat) (Q : Queue J) :
    (d.setQueue q Q).dispatchQueue = d.dispatchQueue := rfl
@[simp] theorem setQueue_dispatchWorkers (d : Dispatcher J P) (q : Nat) (Q : Queue J) :
    (d.setQueue q Q).dispatchWorkers = d.dispatchWorkers := rfl
@[simp] theorem setQueue_tasks (d : Dispatcher J P) (q : Nat) (Q : Queue J) :
    (d.setQueue q Q).tasks = d.tasks := rfl
@[simp] theorem setQueue_queues (d : Dispatcher J P) (q : Nat) (Q : Queue J) :
    (d.setQueue q Q).queues = Function.update d.queues q Q := rfl
@[simp] theorem setQueue_nextQueue (d : Dispatcher J P) (q : Nat) (Q : Queue J) :
    (d.setQueue q Q).nextQueue = d.nextQueue := rfl
@[simp] theorem setQueue_nextTask (d : Dispatcher J P) (q : Nat) (Q : Queue J) :
    (d.setQueue q Q).nextTask = d.nextTask := rfl
@[simp] theorem setState_dispatchQueue (d : Dispatcher J P) (t : Nat) (s : TaskState J P) :
    (d.setState t s).dispatchQueue = d.dispatchQueue := rfl
@[simp] theorem setState_dispatchWorkers (d : Dispatcher J P) (t : Nat) (s : TaskState J P) :
    (d.setState t s).dispatchWorkers = d.dispatchWorkers := rfl
@[simp] theorem setState_queues (d : Dispatcher J P) (t : Nat) (s : TaskState J P) :
    (d.setState t s).queues = d.queues := rfl
@[simp] theorem setState_tasks (d : Dispatcher J P) (t : Nat) (s : TaskState J P) :
    (d.setState t s).tasks = Function.update d.tasks t { d.tasks t with state := s } := rfl
@[simp] theorem setState_nextQueue (d : Dispatcher J P) (t : Nat) (s : TaskState J P) :
    (d.setState t s).nextQueue = d.nextQueue := rfl
@[simp] theorem setState_nextTask (d : Dispatcher J P) (t : Nat) (s : TaskState J P) :
    (d.setState t s).nextTask = d.nextTask := rfl

/-- A startup finds the dispatcher running. -/
theorem startup_running {d : Dispatcher J P} (h : d.dispatchQueue.isSome) (workerCount queueSize : Int) :
    d.startup workerCount queueSize = d := by
  rw [startup, if_pos h]

/-- A startup makes a new queue and new tasks. -/
theorem startup_idle {d : Dispatcher J P} (h : d.dispatchQueue = none) (workerCount queueSize : Int) :
    d.startup workerCount queueSize = {
      dispatchQueue := some d.nextQueue
      dispatchWorkers := List.range' d.nextTask (max workerCount 1).toNat
      queues := Function.update d.queues d.nextQueue { maxsize := max queueSize 1 }
      nextQueue := d.nextQueue + 1
      tasks := fun t =>
        if t ∈ List.range' d.nextTask (max workerCount 1).toNat then { state := .created } else d.tasks t
      nextTask := d.nextTask + (max workerCount 1).toNat } := by
  have hnone : ¬ d.dispatchQueue.isSome := by simp [h]
  simp only [startup, if_neg hnone, List.length_range']

/-- A shutdown moves no task. -/
@[simp] theorem shutdown_state (d : Dispatcher J P) (t : Nat) :
    (d.shutdown.tasks t).state = (d.tasks t).state := by
  simp only [shutdown]
  split <;> rfl

/-- It cancels those of the global list. -/
theorem shutdown_cancelled (d : Dispatcher J P) (t : Nat) :
    (d.shutdown.tasks t).cancelled = true ↔ t ∈ d.dispatchWorkers ∨ (d.tasks t).cancelled = true := by
  simp only [shutdown]
  split
  · next h => exact iff_of_true rfl (.inl h)
  · next h => exact (or_iff_right h).symm

theorem enqueue_ok {d d' : Dispatcher J P} {job : J} {b : Bool} (h : d.enqueue job = .ok (d', b)) :
    ∃ q, d.dispatchQueue = some q ∧
      ((b = true ∧ (d.queues q).full = false ∧
          d' = d.setQueue q { d.queues q with
            items := (d.queues q).items ++ [job]
            unfinished := (d.queues q).unfinished + 1 }) ∨
        (b = false ∧ (d.queues q).full = true ∧ d' = d)) := by
  unfold enqueue Queue.putNowait at h
  split at h
  · cases h
  · next q hq =>
    refine ⟨q, hq, ?_⟩
    cases hfull : (d.queues q).full with
    | false =>
      simp only [hfull, Bool.false_eq_true, if_false, Except.ok.injEq, Prod.mk.injEq] at h
      exact .inl ⟨h.2.symm, rfl, h.1.symm⟩
    | true =>
      simp only [hfull, if_true, Except.ok.injEq, Prod.mk.injEq] at h
      exact .inr ⟨h.2.symm, rfl, h.1.symm⟩

theorem begin_some {d d' : Dispatcher J P} {t : Nat} (h : d.begin t = some d') :
    (d.tasks t).state = .created ∧ (d.tasks t).cancelled = false ∧
      ((d.dispatchQueue = none ∧ d' = d.setState t .ended) ∨
        ∃ q, d.dispatchQueue = some q ∧ d' = d.setState t (.waiting q)) := by
  unfold begin at h
  split at h
  · next hs hc =>
    refine ⟨hs, hc, ?_⟩
    split at h
    · next hq => exact .inl ⟨hq, (Option.some.inj h).symm⟩
    · next q hq => exact .inr ⟨q, hq, (Option.some.inj h).symm⟩
  · cases h

theorem take_some {d d' : Dispatcher J P} {t q : Nat} {start : P} {job : J}
    (h : d.take t start = some (d', q, job)) :
    (d.tasks t).state = .waiting q ∧ (d.tasks t).cancelled = false ∧
      ∃ rest, (d.queues q).items = job :: rest ∧
        d' = (d.setQueue q { d.queues q with items := rest }).setState t (.running q job start) := by
  unfold take Queue.getNowait at h
  split at h
  · next q' hs hc =>
    cases hi : (d.queues q').items with
    | nil => simp [hi] at h
    | cons job' rest =>
      simp only [hi, Option.some.injEq, Prod.mk.injEq] at h
      obtain ⟨rfl, rfl, rfl⟩ := h
      exact ⟨hs, hc, rest, hi, rfl⟩
  · cases h

theorem jobDone_some {d d' : Dispatcher J P} {t : Nat} {e : JobEnd} (h : d.jobDone t e = some d') :
    ∃ q job pos, (d.tasks t).state = .running q job pos ∧
      (((d.queues q).unfinished = 0 ∧ d' = d.setState t .ended) ∨
        (0 < (d.queues q).unfinished ∧
          d' = (d.setQueue q { d.queues q with
            unfinished := (d.queues q).unfinished - 1 }).setState t (afterEnd q e))) := by
  unfold jobDone Queue.taskDone at h
  split at h
  · next q job pos hs =>
    refine ⟨q, job, pos, hs, ?_⟩
    by_cases hu : (d.queues q).unfinished = 0
    · simp only [hu, if_true, Option.some.injEq] at h
      exact .inl ⟨hu, h.symm⟩
    · simp only [hu, if_false, Option.some.injEq] at h
      exact .inr ⟨Nat.pos_of_ne_zero hu, h.symm⟩
  · cases h

/-- The end of a job leaves the globals alone. -/
theorem jobDone_globals {d d' : Dispatcher J P} {t : Nat} {e : JobEnd} (h : d.jobDone t e = some d') :
    d'.dispatchQueue = d.dispatchQueue ∧ d'.dispatchWorkers = d.dispatchWorkers ∧
      d'.nextQueue = d.nextQueue ∧ d'.nextTask = d.nextTask := by
  obtain ⟨q, job, pos, -, ⟨-, rfl⟩ | ⟨-, rfl⟩⟩ := jobDone_some h <;> exact ⟨rfl, rfl, rfl, rfl⟩

/-- Capacity is what `put_nowait` checks, when the queue is bounded. -/
theorem hasCapacity_iff {d : Dispatcher J P} (h : ∀ q, d.dispatchQueue = some q → 0 < (d.queues q).maxsize)
    (job : J) : d.hasCapacity = .ok true ↔ ∃ d', d.enqueue job = .ok (d', true) := by
  unfold hasCapacity enqueue Queue.putNowait Queue.full
  cases hq : d.dispatchQueue with
  | none => simp
  | some q =>
    have hpos : ¬ (d.queues q).maxsize ≤ 0 := Int.not_le.mpr (h q hq)
    by_cases hlen : (d.queues q).maxsize ≤ (d.queues q).items.length
    · simp [hpos, hlen]
    · simp [hpos, hlen, Int.not_le.mp hlen]

end Dispatcher

end WebhookRelay
