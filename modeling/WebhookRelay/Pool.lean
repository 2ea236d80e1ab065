import Mathlib.Data.List.Perm.Basic
import WebhookRelay.Dispatcher

/-
  The dispatcher between one startup and the next shutdown: producers offer
  jobs, workers begin, take jobs and finish them, in any order, and a job may
  return or raise. Each offer carries its number, so that two offers of one job
  are told apart.

  `dispatcher_queue` is the conservation law of the queue, for every
  configured size and every number of workers. Its invariant (`Pool.Inv`) ties
  the history of offers and starts to the queue and the tasks.
-/
namespace WebhookRelay

open Transition

variable {J : Type}

/-- The dispatcher with the number of offers made so far. -/
structure Pool (J : Type) where
  disp : Dispatcher (Nat × J) Unit
  offered : Nat := 0

inductive PoolAct (J : Type) where
  | offer (job : J)
  | begin (t : Nat)
  | take (t : Nat)
  | jobReturned (t : Nat)
  | jobRaised (t : Nat) (exc : PyExc)

inductive PoolObs where
  | accepted (n : Nat)
  | refused (n : Nat)
  | began (t : Nat)
  | started (t n : Nat)
  | finished (t n : Nat)
  deriving DecidableEq

namespace Pool

/-- The pool after `startup_relay_dispatcher` in a fresh module. -/
def start (workerCount queueSize : Int) : Pool J :=
  { disp := Dispatcher.startup {} workerCount queueSize }

def runningTag (task : Task (Nat × J) Unit) : Option Nat :=
  match task.state with
  | .running _ job _ => some job.1
  | _ => none

def jobDone (s : Pool J) (t : Nat) (e : JobEnd) : Option (Pool J × PoolObs) :=
  match runningTag (s.disp.tasks t), s.disp.jobDone t e with
  | some n, some d => some ({ s with disp := d }, .finished t n)
  | _, _ => none

def step (s : Pool J) : PoolAct J → Option (Pool J × PoolObs)
  | .offer job =>
    match s.disp.enqueue (s.offered, job) with
    | .ok (d, true) => some ({ disp := d, offered := s.offered + 1 }, .accepted s.offered)
    | .ok (d, false) => some ({ disp := d, offered := s.offered + 1 }, .refused s.offered)
    | .error _ => none
  | .begin t => (s.disp.begin t).map (fun d => ({ s with disp := d }, .began t))
  | .take t => (s.disp.take t ()).map (fun r => ({ s with disp := r.1 }, .started t r.2.2.1))
  | .jobReturned t => s.jobDone t .returned
  | .jobRaised t exc => s.jobDone t (.raised exc)

/-! ## What is read off a history and a state -/

def accepted (os : List PoolObs) : List Nat :=
  os.filterMap (fun o => match o with | .accepted n => some n | _ => none)

def refused (os : List PoolObs) : List Nat :=
  os.filterMap (fun o => match o with | .refused n => some n | _ => none)

def started (os : List PoolObs) : List Nat :=
  os.filterMap (fun o => match o with | .started _ n => some n | _ => none)

def finished (os : List PoolObs) : List Nat :=
  os.filterMap (fun o => match o with | .finished _ n => some n | _ => none)

/-- The numbers of the jobs waiting in a queue. -/
def waiting (s : Pool J) (q : Nat) : List Nat := (s.disp.queues q).items.map Prod.fst

/-- The numbers of the jobs the workers are running. -/
def running (s : Pool J) : List Nat :=
  s.disp.dispatchWorkers.filterMap (fun t => runningTag (s.disp.tasks t))

/-- A worker of the pool that serves queue `q`. -/
def Alive (q : Nat) (task : Task (Nat × J) Unit) : Prop :=
  task.cancelled = false ∧
    (task.state = .created ∨ task.state = .waiting q ∨ ∃ job, task.state = .running q job ())

/-- The invariant of the pool. -/
structure Inv (workerCount queueSize : Int) (s : Pool J) (os : List PoolObs) : Prop where
  queue : s.disp.dispatchQueue = some 0
  maxsize : (s.disp.queues 0).maxsize = max queueSize 1
  bounded : ((s.disp.queues 0).items.length : Int) ≤ max queueSize 1
  workers : s.disp.dispatchWorkers = List.range' 0 (max workerCount 1).toNat
  alive : ∀ t ∈ s.disp.dispatchWorkers, Alive 0 (s.disp.tasks t)
  others : ∀ t, t ∉ s.disp.dispatchWorkers → (s.disp.tasks t).state = .ended
  fifo : accepted os = started os ++ s.waiting 0
  conserved : (started os).Perm (s.running ++ finished os)
  unfinished : (s.disp.queues 0).unfinished = (s.waiting 0).length + s.running.length
  fresh : ∀ n ∈ accepted os ++ refused os, n < s.offered
  once : (accepted os ++ refused os).Nodup

/-! ## Lemmas -/

/-- Filling in one index of a partial function adds its value to the image. -/
theorem perm_filterMap_update {f : Nat → Option Nat} {l : List Nat} {t n : Nat} (hl : l.Nodup)
    (ht : t ∈ l) (hf : f t = none) :
    (l.filterMap (Function.update f t (some n))).Perm (n :: l.filterMap f) := by
  obtain ⟨a, b, rfl⟩ := List.append_of_mem ht
  have hab : ∀ u ∈ a ++ b, u ≠ t := by
    intro u hu hut
    rw [List.nodup_append] at hl
    rw [List.nodup_cons] at hl
    rcases List.mem_append.mp hu with h | h
    · exact hl.2.2 u h t List.mem_cons_self hut
    · exact hl.2.1.1 (hut ▸ h)
  have hsame : ∀ m : List Nat, (∀ u ∈ m, u ≠ t) →
      m.filterMap (Function.update f t (some n)) = m.filterMap f := by
    intro m hm
    exact List.filterMap_congr (fun u hu => Function.update_of_ne (hm u hu) _ _)
  rw [List.filterMap_append, List.filterMap_append, List.filterMap_cons_some (Function.update_self ..),
    List.filterMap_cons_none hf, hsame a (fun u hu => hab u (List.mem_append_left _ hu)),
    hsame b (fun u hu => hab u (List.mem_append_right _ hu))]
  exact List.perm_middle

theorem runningTag_update (tasks : Nat → Task (Nat × J) Unit) (t : Nat) (task : Task (Nat × J) Unit) :
    (fun u => runningTag (Function.update tasks t task u)) =
      Function.update (fun u => runningTag (tasks u)) t (runningTag task) := by
  funext u
  by_cases h : u = t
  · subst h
    rw [Function.update_self, Function.update_self]
  · rw [Function.update_of_ne h, Function.update_of_ne h]

/-! ## The invariant -/

theorem inv_start (workerCount queueSize : Int) :
    Inv workerCount queueSize (start workerCount queueSize : Pool J) [] := by
  have hq : (start workerCount queueSize : Pool J).disp.queues 0 = { maxsize := max queueSize 1 } := rfl
  have hrun : (start workerCount queueSize : Pool J).running = [] := by
    apply List.filterMap_eq_nil_iff.mpr
    intro t ht
    simp only [start, Dispatcher.startup, Option.isSome_none, Bool.false_eq_true, if_false] at ht ⊢
    rw [if_pos ht]
    rfl
  refine ⟨rfl, by rw [hq], ?_, rfl, ?_, ?_, ?_, ?_, ?_, ?_, ?_⟩
  · rw [hq]
    simp only [List.length_nil]
    omega
  · intro t ht
    simp only [start, Dispatcher.startup, Option.isSome_none, Bool.false_eq_true, if_false] at ht ⊢
    rw [if_pos ht]
    exact ⟨rfl, .inl rfl⟩
  · intro t ht
    simp only [start, Dispatcher.startup, Option.isSome_none, Bool.false_eq_true, if_false] at ht ⊢
    rw [if_neg ht]
  · rw [waiting, hq]
    rfl
  · rw [hrun]
    exact .nil
  · rw [hrun, waiting, hq]
    rfl
  · intro n hn
    cases hn
  · exact List.nodup_nil

theorem Inv.mem_workers {workerCount queueSize : Int} {s : Pool J} {os : List PoolObs}
    (h : Inv workerCount queueSize s os) {t : Nat} (ht : (s.disp.tasks t).state ≠ .ended) :
    t ∈ s.disp.dispatchWorkers :=
  Decidable.byContradiction (fun hn => ht (h.others t hn))

theorem Inv.workers_nodup {workerCount queueSize : Int} {s : Pool J} {os : List PoolObs}
    (h : Inv workerCount queueSize s os) : s.disp.dispatchWorkers.Nodup := by
  rw [h.workers]
  exact List.nodup_range'

/-- A worker that is given a state in which it serves the queue stays alive. -/
theorem alive_setState {d : Dispatcher (Nat × J) Unit} {q t : Nat} {st : TaskState (Nat × J) Unit}
    (h : ∀ u ∈ d.dispatchWorkers, Alive q (d.tasks u)) (hc : (d.tasks t).cancelled = false)
    (hst : st = .waiting q ∨ ∃ job, st = .running q job ()) :
    ∀ u ∈ d.dispatchWorkers, Alive q ((d.setState t st).tasks u) := by
  intro u hu
  by_cases hut : u = t
  · subst hut
    rw [Dispatcher.setState_tasks, Function.update_self]
    exact ⟨hc, .inr hst⟩
  · rw [Dispatcher.setState_tasks, Function.update_of_ne hut]
    exact h u hu

theorem others_setState {d : Dispatcher (Nat × J) Unit} {t : Nat} {st : TaskState (Nat × J) Unit}
    (h : ∀ u, u ∉ d.dispatchWorkers → (d.tasks u).state = .ended) (ht : t ∈ d.dispatchWorkers) :
    ∀ u, u ∉ d.dispatchWorkers → ((d.setState t st).tasks u).state = .ended := by
  intro u hu
  have hut : u ≠ t := by
    intro heq
    obtain rfl := heq
    exact hu ht
  rw [Dispatcher.setState_tasks, Function.update_of_ne hut]
  exact h u hu

/-- An accepted job goes to the end of the queue. -/
theorem inv_accepted {workerCount queueSize : Int} {s : Pool J} {os : List PoolObs} {job : J}
    {d : Dispatcher (Nat × J) Unit} (h : Inv workerCount queueSize s os)
    (he : s.disp.enqueue (s.offered, job) = .ok (d, true)) :
    Inv workerCount queueSize { disp := d, offered := s.offered + 1 } (os ++ [.accepted s.offered]) := by
  obtain ⟨q, hq, ⟨-, hfull, rfl⟩ | ⟨hb, -, -⟩⟩ := Dispatcher.enqueue_ok he
  · obtain rfl : q = 0 := by simpa [h.queue] using hq.symm
    -- the queue is bounded, so it is not full only below its bound
    have hroom : ((s.disp.queues 0).items.length : Int) < max queueSize 1 := by
      unfold Queue.full at hfull
      rw [h.maxsize] at hfull
      split at hfull
      · omega
      · exact Int.not_le.mp (of_decide_eq_false hfull)
    have hacc : accepted (os ++ [.accepted s.offered]) = accepted os ++ [s.offered] :=
      List.filterMap_append
    have href : refused (os ++ [.accepted s.offered]) = refused os := by
      simp [refused]
    have hsta : started (os ++ [.accepted s.offered]) = started os := by
      simp [started]
    have hfin : finished (os ++ [.accepted s.offered]) = finished os := by
      simp [finished]
    have hnew : ∀ n ∈ accepted os ++ refused os, n ≠ s.offered := by
      intro n hn
      exact Nat.ne_of_lt (h.fresh n hn)
    refine ⟨h.queue, ?_, ?_, h.workers, h.alive, h.others, ?_, ?_, ?_, ?_, ?_⟩
    · simpa using h.maxsize
    · simp only [Dispatcher.setQueue_queues, Function.update_self, List.length_append,
        List.length_singleton]
      omega
    · rw [hacc, hsta, h.fifo, List.append_assoc]
      simp [waiting]
    · rw [hsta, hfin]
      exact h.conserved
    · have hlen := h.unfinished
      simp only [waiting, running, List.length_map, Dispatcher.setQueue_queues, Function.update_self,
        List.length_append, List.length_singleton, Dispatcher.setQueue_tasks,
        Dispatcher.setQueue_dispatchWorkers] at hlen ⊢
      omega
    · intro n hn
      rw [hacc, href] at hn
      simp only [List.mem_append, List.mem_singleton] at hn
      rcases hn with (hn | rfl) | hn
      · exact Nat.lt_succ_of_lt (h.fresh n (List.mem_append_left _ hn))
      · exact Nat.lt_succ_self _
      · exact Nat.lt_succ_of_lt (h.fresh n (List.mem_append_right _ hn))
    · rw [hacc, href, List.append_assoc, List.singleton_append]
      refine List.perm_middle.symm.nodup (List.nodup_cons.mpr ⟨?_, h.once⟩)
      intro hmem
      exact hnew _ hmem rfl
  · cases hb

/-- A refused job leaves the dispatcher as it was. -/
theorem inv_refused {workerCount queueSize : Int} {s : Pool J} {os : List PoolObs} {job : J}
    {d : Dispatcher (Nat × J) Unit} (h : Inv workerCount queueSize s os)
    (he : s.disp.enqueue (s.offered, job) = .ok (d, false)) :
    Inv workerCount queueSize { disp := d, offered := s.offered + 1 } (os ++ [.refused s.offered]) := by
  obtain ⟨q, hq, ⟨hb, -, -⟩ | ⟨-, -, rfl⟩⟩ := Dispatcher.enqueue_ok he
  · cases hb
  · have hacc : accepted (os ++ [.refused s.offered]) = accepted os := by
      simp [accepted]
    have href : refused (os ++ [.refused s.offered]) = refused os ++ [s.offered] :=
      List.filterMap_append
    have hsta : started (os ++ [.refused s.offered]) = started os := by
      simp [started]
    have hfin : finished (os ++ [.refused s.offered]) = finished os := by
      simp [finished]
    refine ⟨h.queue, h.maxsize, h.bounded, h.workers, h.alive, h.others, ?_, ?_, h.unfinished, ?_, ?_⟩
    · rw [hacc, hsta]
      exact h.fifo
    · rw [hsta, hfin]
      exact h.conserved
    · intro n hn
      rw [hacc, href, ← List.append_assoc, List.mem_append, List.mem_singleton] at hn
      rcases hn with hn | rfl
      · exact Nat.lt_succ_of_lt (h.fresh n hn)
      · exact Nat.lt_succ_self _
    · rw [hacc, href, ← List.append_assoc]
      refine (List.perm_append_singleton _ _).symm.nodup (List.nodup_cons.mpr ⟨?_, h.once⟩)
      intro hmem
      exact Nat.ne_of_lt (h.fresh _ hmem) rfl

/-- A created worker starts to wait. -/
theorem inv_began {workerCount queueSize : Int} {s : Pool J} {os : List PoolObs} {t : Nat}
    {d : Dispatcher (Nat × J) Unit} (h : Inv workerCount queueSize s os) (hb : s.disp.begin t = some d) :
    Inv workerCount queueSize { s with disp := d } (os ++ [.began t]) := by
  obtain ⟨hs, hc, ⟨hq, -⟩ | ⟨q, hq, rfl⟩⟩ := Dispatcher.begin_some hb
  · rw [h.queue] at hq
    cases hq
  · obtain rfl : q = 0 := by simpa [h.queue] using hq.symm
    have hacc : accepted (os ++ [.began t]) = accepted os := by simp [accepted]
    have href : refused (os ++ [.began t]) = refused os := by simp [refused]
    have hsta : started (os ++ [.began t]) = started os := by simp [started]
    have hfin : finished (os ++ [.began t]) = finished os := by simp [finished]
    -- a created and a waiting worker both run nothing
    have hrun : running { s with disp := s.disp.setState t (.waiting 0) } = s.running := by
      unfold running
      simp only [Dispatcher.setState_dispatchWorkers, Dispatcher.setState_tasks, runningTag_update]
      have hnone : runningTag (s.disp.tasks t) = none := by simp [runningTag, hs]
      rw [show runningTag { s.disp.tasks t with state := TaskState.waiting 0 } =
        runningTag (s.disp.tasks t) from hnone.symm, Function.update_eq_self]
    have hmem : t ∈ s.disp.dispatchWorkers := h.mem_workers (by rw [hs]; exact nofun)
    refine ⟨h.queue, h.maxsize, h.bounded, h.workers, alive_setState h.alive hc (.inl rfl),
      others_setState h.others hmem, ?_, ?_, ?_, ?_, ?_⟩
    · rw [hacc, hsta]
      exact h.fifo
    · rw [hsta, hfin, hrun]
      exact h.conserved
    · rw [hrun]
      exact h.unfinished
    · rw [hacc, href]
      exact h.fresh
    · rw [hacc, href]
      exact h.once

/-- The worker at the head of the queue's getters starts the oldest job. -/
theorem inv_started {workerCount queueSize : Int} {s : Pool J} {os : List PoolObs} {t q : Nat}
    {job : Nat × J} {d : Dispatcher (Nat × J) Unit} (h : Inv workerCount queueSize s os)
    (ht : s.disp.take t () = some (d, q, job)) :
    Inv workerCount queueSize { s with disp := d } (os ++ [.started t job.1]) := by
  obtain ⟨hs, hc, rest, hitems, rfl⟩ := Dispatcher.take_some ht
  have hmem : t ∈ s.disp.dispatchWorkers := h.mem_workers (by rw [hs]; exact nofun)
  obtain rfl : q = 0 := by
    rcases (h.alive t hmem).2 with h0 | h0 | ⟨_, h0⟩
    · simp [hs] at h0
    · simpa [hs] using h0
    · simp [hs] at h0
  have hacc : accepted (os ++ [.started t job.1]) = accepted os := by simp [accepted]
  have href : refused (os ++ [.started t job.1]) = refused os := by simp [refused]
  have hsta : started (os ++ [.started t job.1]) = started os ++ [job.1] := List.filterMap_append
  have hfin : finished (os ++ [.started t job.1]) = finished os := by simp [finished]
  have hwait : s.waiting 0 = job.1 :: rest.map Prod.fst := by rw [waiting, hitems, List.map_cons]
  -- the job moves from the head of the queue to the running ones
  have hrun : (running { s with
      disp := (s.disp.setQueue 0 { s.disp.queues 0 with items := rest }).setState t
        (.running 0 job ()) }).Perm (job.1 :: s.running) := by
    unfold running
    simp only [Dispatcher.setState_dispatchWorkers, Dispatcher.setState_tasks,
      Dispatcher.setQueue_dispatchWorkers, Dispatcher.setQueue_tasks, runningTag_update]
    exact perm_filterMap_update h.workers_nodup hmem (by simp [runningTag, hs])
  refine ⟨h.queue, ?_, ?_, h.workers, ?_, ?_, ?_, ?_, ?_, ?_, ?_⟩
  · simpa using h.maxsize
  · have hb := h.bounded
    simp only [hitems, List.length_cons] at hb
    simp only [Dispatcher.setState_queues, Dispatcher.setQueue_queues, Function.update_self]
    omega
  · exact alive_setState (d := s.disp.setQueue 0 _) h.alive hc (.inr ⟨job, rfl⟩)
  · exact others_setState (d := s.disp.setQueue 0 _) h.others hmem
  · rw [hacc, hsta, h.fifo, hwait]
    simp [waiting]
  · rw [hsta, hfin]
    have hcons : (job.1 :: started os).Perm (job.1 :: s.running ++ finished os) := h.conserved.cons _
    exact (List.perm_append_singleton _ _).trans (hcons.trans (hrun.symm.append_right _))
  · have hlen := h.unfinished
    rw [hwait, List.length_cons, List.length_map] at hlen
    rw [hrun.length_eq, List.length_cons]
    simp only [waiting, Dispatcher.setState_queues, Dispatcher.setQueue_queues, Function.update_self,
      List.length_map]
    omega
  · rw [hacc, href]
    exact h.fresh
  · rw [hacc, href]
    exact h.once

/-- A job that returned or raised leaves its worker waiting for the next. -/
theorem inv_finished {workerCount queueSize : Int} {s s' : Pool J} {os : List PoolObs} {t : Nat}
    {e : JobEnd} {o : PoolObs} (h : Inv workerCount queueSize s os)
    (he : (Dispatcher.afterEnd 0 e : TaskState (Nat × J) Unit) = .waiting 0) (hj : s.jobDone t e = some (s', o)) :
    Inv workerCount queueSize s' (os ++ [o]) := by
  unfold jobDone at hj
  split at hj
  · next n d htag hd =>
    simp only [Option.some.injEq, Prod.mk.injEq] at hj
    obtain ⟨rfl, rfl⟩ := hj
    obtain ⟨q, job, pos, hs, hcase⟩ := Dispatcher.jobDone_some hd
    have hmem : t ∈ s.disp.dispatchWorkers := h.mem_workers (by rw [hs]; exact nofun)
    obtain rfl : q = 0 := by
      rcases (h.alive t hmem).2 with h0 | h0 | ⟨_, h0⟩
      · simp [hs] at h0
      · simp [hs] at h0
      · simp only [hs, TaskState.running.injEq] at h0
        exact h0.1
    obtain rfl : n = job.1 := by simpa [runningTag, hs] using htag.symm
    have hacc : accepted (os ++ [.finished t job.1]) = accepted os := by simp [accepted]
    have href : refused (os ++ [.finished t job.1]) = refused os := by simp [refused]
    have hsta : started (os ++ [.finished t job.1]) = started os := by simp [started]
    have hfin : finished (os ++ [.finished t job.1]) = finished os ++ [job.1] :=
      List.filterMap_append
    -- without the worker's job, the running ones are those of the others
    have hrun : s.running.Perm (job.1 :: s.disp.dispatchWorkers.filterMap
        (Function.update (fun u => runningTag (s.disp.tasks u)) t none)) := by
      have hback := perm_filterMap_update (n := job.1) h.workers_nodup hmem
        (Function.update_self t none (fun u => runningTag (s.disp.tasks u)))
      rwa [Function.update_idem, show some job.1 = runningTag (s.disp.tasks t) from htag.symm,
        Function.update_eq_self] at hback
    have hlen := h.unfinished
    rw [hrun.length_eq, List.length_cons] at hlen
    rcases hcase with ⟨hzero, -⟩ | ⟨-, rfl⟩
    · -- a running job is unfinished, so `task_done` does not raise
      omega
    · rw [he]
      have hnew : running { s with
          disp := (s.disp.setQueue 0 { s.disp.queues 0 with
            unfinished := (s.disp.queues 0).unfinished - 1 }).setState t (.waiting 0) } =
          s.disp.dispatchWorkers.filterMap
            (Function.update (fun u => runningTag (s.disp.tasks u)) t none) := by
        unfold running
        simp only [Dispatcher.setState_dispatchWorkers, Dispatcher.setState_tasks,
          Dispatcher.setQueue_dispatchWorkers, Dispatcher.setQueue_tasks, runningTag_update]
        rfl
      refine ⟨h.queue, ?_, ?_, h.workers, ?_, ?_, ?_, ?_, ?_, ?_, ?_⟩
      · simpa using h.maxsize
      · simpa using h.bounded
      · exact alive_setState (d := s.disp.setQueue 0 _) h.alive (h.alive t hmem).1 (.inl rfl)
      · exact others_setState (d := s.disp.setQueue 0 _) h.others hmem
      · rw [hacc, hsta, h.fifo]
        simp [waiting]
      · rw [hsta, hfin, hnew]
        apply (h.conserved.trans (hrun.append_right _)).trans
        rw [List.cons_append, ← List.append_assoc]
        exact (List.perm_append_singleton _ _).symm
      · rw [hnew]
        simp only [waiting, Dispatcher.setState_queues, Dispatcher.setQueue_queues,
          Function.update_self] at hlen ⊢
        omega
      · rw [hacc, href]
        exact h.fresh
      · rw [hacc, href]
        exact h.once
  · cases hj

theorem inv_step {workerCount queueSize : Int} {s s' : Pool J} {os : List PoolObs} {a : PoolAct J}
    {o : PoolObs} (h : Inv workerCount queueSize s os) (hs : s.step a = some (s', o)) :
    Inv workerCount queueSize s' (os ++ [o]) := by
  cases a with
  | offer job =>
    simp only [step] at hs
    split at hs
    · next d he =>
      simp only [Option.some.injEq, Prod.mk.injEq] at hs
      obtain ⟨rfl, rfl⟩ := hs
      exact inv_accepted h he
    · next d he =>
      simp only [Option.some.injEq, Prod.mk.injEq] at hs
      obtain ⟨rfl, rfl⟩ := hs
      exact inv_refused h he
    · cases hs
  | begin t =>
    obtain ⟨d, hb, hd⟩ := Option.map_eq_some_iff.mp hs
    simp only [Prod.mk.injEq] at hd
    obtain ⟨rfl, rfl⟩ := hd
    exact inv_began h hb
  | take t =>
    obtain ⟨⟨d, q, job⟩, ht, hd⟩ := Option.map_eq_some_iff.mp hs
    simp only [Prod.mk.injEq] at hd
    obtain ⟨rfl, rfl⟩ := hd
    exact inv_started h ht
  | jobReturned t => exact inv_finished h rfl hs
  | jobRaised t exc => exact inv_finished (e := .raised exc) h rfl hs

theorem inv_run {workerCount queueSize : Int} {s : Pool J} {as : List (PoolAct J)}
    {os : List PoolObs} (h : Run step (start workerCount queueSize) as os s) :
    Inv workerCount queueSize s os :=
  h.history (inv_start workerCount queueSize) (fun _ _ _ _ _ hi hs => inv_step hi hs)

/-! ## The conservation law -/

/-- **The dispatcher queue loses, repeats and reorders nothing.** Between a
startup and the next shutdown, whatever the configured numbers and whatever the
jobs do: the queue stays within its bound, capacity is reported exactly when an
offer would be accepted, accepted jobs are started in the order of acceptance
and each is waiting, running or finished, refused ones never start, and all the
workers stay alive. -/
theorem dispatcher_queue (workerCount queueSize : Int) {s : Pool J} {as : List (PoolAct J)}
    {os : List PoolObs} (h : Run step (start workerCount queueSize) as os s) :
    ∃ q, s.disp.dispatchQueue = some q ∧
      ((s.disp.queues q).items.length : Int) ≤ max queueSize 1 ∧
      (∀ job, s.disp.hasCapacity = .ok true ↔ ∃ d, s.disp.enqueue job = .ok (d, true)) ∧
      (accepted os).Nodup ∧
      (accepted os).Perm (s.waiting q ++ s.running ++ finished os) ∧
      accepted os = started os ++ s.waiting q ∧
      (∀ n ∈ refused os, n ∉ started os) ∧
      (s.disp.queues q).unfinished = (s.waiting q).length + s.running.length ∧
      s.disp.dispatchWorkers.length = (max workerCount 1).toNat ∧
      ∀ t ∈ s.disp.dispatchWorkers, Alive q (s.disp.tasks t) := by
  have hi := inv_run h
  have hbounded : ∀ q, s.disp.dispatchQueue = some q → 0 < (s.disp.queues q).maxsize := by
    intro q hq
    obtain rfl : q = 0 := by simpa [hi.queue] using hq.symm
    rw [hi.maxsize]
    omega
  obtain ⟨hacc, -, hdisj⟩ := List.nodup_append.mp hi.once
  refine ⟨0, hi.queue, hi.bounded, Dispatcher.hasCapacity_iff hbounded, hacc, ?_, hi.fifo, ?_,
    hi.unfinished, ?_, hi.alive⟩
  · -- started jobs are running or finished; the others wait
    rw [hi.fifo, List.append_assoc]
    exact List.perm_append_comm.trans (hi.conserved.append_left _)
  · intro n hr hs
    have hn : n ∈ accepted os := by
      rw [hi.fifo]
      exact List.mem_append_left _ hs
    exact hdisj n hn n hr rfl
  · rw [hi.workers, List.length_range']

def busyOffers : List (PoolAct Unit) :=
  [.begin 1, .offer (), .take 1, .offer (), .offer (), .jobRaised 1 .recursionError]

/-- Two workers and a queue size of zero, which counts as one: the third offer
finds the queue full, and the first job raises. -/
theorem dispatcher_queue_busy :
    ∃ (s : Pool Unit) (os : List PoolObs), Transition.exec step (start 2 0) busyOffers = some (s, os) ∧
      refused os = [2] ∧ finished os = [0] ∧
      ∃ q, s.disp.dispatchQueue = some q ∧
        (accepted os).Perm (s.waiting q ++ s.running ++ finished os) := by
  have places : ∀ (s : Pool Unit) (os : List PoolObs),
      Transition.exec step (start 2 0) busyOffers = some (s, os) →
        ∃ q, s.disp.dispatchQueue = some q ∧
          (accepted os).Perm (s.waiting q ++ s.running ++ finished os) := by
    intro s os hrun
    obtain ⟨q, hq, -, -, -, hplaces, -⟩ := dispatcher_queue 2 0 (Run.of_exec hrun)
    exact ⟨q, hq, hplaces⟩
  exact ⟨_, _, rfl, rfl, rfl, places _ _ rfl⟩

end Pool

end WebhookRelay
