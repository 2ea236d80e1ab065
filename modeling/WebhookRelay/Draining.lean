import Mathlib.Algebra.Order.BigOperators.Group.Finset
import WebhookRelay.Lifespans
import WebhookRelay.Outcomes
import WebhookRelay.Termination

/-
  That background work ends. Every step of a worker is paid for by the job it
  works on or by the worker's own birth, so no schedule keeps the workers busy
  for ever; and as long as a job waits or runs, some worker has a next step.

  What is proved of every run, whatever the interleaving:
    1. `worker_steps_bounded`: the workers of a process take at most 13 steps
       for each job their dispatcher accepted, and 2 for each worker started.
    2. `relays_drain`: from every state the workers of a process come to rest
       within a bounded number of steps; at rest nothing waits and nothing runs,
       and each relay that was accepted since the last shutdown has its outcome.
    3. `shutdown_completes`: once a shutdown has begun, the only steps left to
       its workers are their cancellations, which end in the closing of the
       client and leave the table alone.
-/
namespace WebhookRelay

open Py Transition

/-! ## What is left to do -/

/-- The steps a job has left, its end included. -/
def Position.remaining : Position → Nat
  | .start => 12
  | .resolving => 11
  | .attempt n _ => 4 + 2 * (maxAttempts - n)
  | .inFlight n _ => 3 + 2 * (maxAttempts - n)
  | .persist _ => 2
  | .returned | .raised _ => 1

/-- The steps a worker has left without another job. -/
def TaskState.remaining {J : Type} : TaskState J Position → Nat
  | .created => 2
  | .waiting _ => 1
  | .running _ _ pos => pos.remaining + 1
  | .ended => 0

/-- The steps a job takes, from the queue to its end. -/
def jobSteps : Nat := 13

namespace Dispatcher

/-- The jobs that wait in the current queue. -/
def waitingJobs {J P : Type} (d : Dispatcher J P) : Nat :=
  match d.dispatchQueue with
  | none => 0
  | some q => (d.queues q).items.length

/-- The sum of a figure over the tasks. -/
def load {J P : Type} (f : TaskState J P → Nat) (d : Dispatcher J P) : Nat :=
  ∑ t ∈ Finset.range d.nextTask, f (d.tasks t).state

/-- Moving one task. -/
theorem load_setState {J P : Type} {d : Dispatcher J P} (f : TaskState J P → Nat) {t : Nat} (ht : t < d.nextTask)
    (s : TaskState J P) : (d.setState t s).load f + f (d.tasks t).state = d.load f + f s := by
  have hmem := Finset.mem_range.mpr ht
  have hold := Finset.add_sum_erase _ (fun u => f (d.tasks u).state) hmem
  have hnew := Finset.add_sum_erase _ (fun u => f ((d.setState t s).tasks u).state) hmem
  have hrest : ∑ u ∈ (Finset.range d.nextTask).erase t, f ((d.setState t s).tasks u).state =
      ∑ u ∈ (Finset.range d.nextTask).erase t, f (d.tasks u).state := by
    apply Finset.sum_congr rfl
    intro u hu
    rw [setState_tasks, Function.update_of_ne (Finset.ne_of_mem_erase hu)]
  simp only [setState_tasks, Function.update_self] at hnew hrest
  simp only [load, setState_nextTask, setState_tasks]
  omega

variable {J : Type} {d : Dispatcher J Position}

/-- The steps the workers have left. -/
def todo (d : Dispatcher J Position) : Nat := jobSteps * d.waitingJobs + d.load TaskState.remaining

/-- A task that has not ended exists. -/
theorem WF.born {J P : Type} {d : Dispatcher J P} (h : d.WF) {t : Nat} (hs : (d.tasks t).state ≠ .ended) :
    t < d.nextTask := by
  by_contra hlt
  exact hs (h.unborn t (Nat.not_lt.mp hlt))

theorem todo_setState {t : Nat} (ht : t < d.nextTask) (s : TaskState J Position) :
    (d.setState t s).todo + (d.tasks t).state.remaining = d.todo + s.remaining := by
  have hload := load_setState TaskState.remaining ht s
  have hwaiting : (d.setState t s).waitingJobs = d.waitingJobs := rfl
  rw [todo, todo, hwaiting]
  omega

theorem todo_setQueue (q : Nat) (Q : Queue J) :
    (d.setQueue q Q).todo + jobSteps * d.waitingJobs = d.todo + jobSteps * (d.setQueue q Q).waitingJobs := by
  have hload : (d.setQueue q Q).load TaskState.remaining = d.load TaskState.remaining := rfl
  rw [todo, todo, hload]
  omega

theorem waitingJobs_setQueue {q : Nat} (hq : d.dispatchQueue = some q) (Q : Queue J) :
    (d.setQueue q Q).waitingJobs = Q.items.length := by
  rw [waitingJobs, setQueue_dispatchQueue, hq]
  simp only [setQueue_queues, Function.update_self]

/-- A queue that keeps its items. -/
theorem todo_setQueue_items {q : Nat} {Q : Queue J} (hQ : Q.items = (d.queues q).items) :
    (d.setQueue q Q).todo = d.todo := by
  have hwaiting : (d.setQueue q Q).waitingJobs = d.waitingJobs := by
    simp only [waitingJobs, setQueue_dispatchQueue, setQueue_queues]
    cases d.dispatchQueue with
    | none => rfl
    | some r =>
      by_cases hr : r = q
      · subst hr
        simp only [Function.update_self, hQ]
      · simp only [Function.update_of_ne hr]
  have hqueue := d.todo_setQueue q Q
  rw [hwaiting] at hqueue
  omega

theorem todo_shutdown (d : Dispatcher J Position) : d.shutdown.todo ≤ d.todo := by
  have hload : d.shutdown.load TaskState.remaining = d.load TaskState.remaining :=
    Finset.sum_congr rfl (fun t _ => by rw [shutdown_state])
  have hwaiting : d.shutdown.waitingJobs = 0 := rfl
  rw [todo, todo, hload, hwaiting]
  omega

/-- A startup brings in its workers. -/
theorem todo_startup (d : Dispatcher J Position) (workerCount queueSize : Int) :
    (d.startup workerCount queueSize).todo ≤ d.todo + 2 * (max workerCount 1).toNat := by
  cases hq : d.dispatchQueue with
  | some q =>
    rw [startup_running (by rw [hq]; rfl)]
    omega
  | none =>
    rw [startup_idle hq, todo, todo, load, load, Finset.sum_range_add]
    simp only [waitingJobs, Function.update_self, List.length_nil, Nat.mul_zero, Nat.zero_add, hq]
    apply Nat.add_le_add
    · -- the tasks there were keep their states
      apply Finset.sum_le_sum
      intro t ht
      have hnot : t ∉ List.range' d.nextTask (max workerCount 1).toNat := by
        intro hmem
        have hle := (List.mem_range'_1.mp hmem).1
        have hlt := Finset.mem_range.mp ht
        omega
      rw [if_neg hnot]
    · -- each new one has two steps left
      rw [Finset.sum_const_nat (m := 2), Finset.card_range, Nat.mul_comm]
      intro u hu
      have hmem : d.nextTask + u ∈ List.range' d.nextTask (max workerCount 1).toNat := by
        have hlt := Finset.mem_range.mp hu
        rw [List.mem_range'_1]
        omega
      rw [if_pos hmem]
      rfl

end Dispatcher

/-- A step of a job leaves it fewer. -/
theorem Turn.remaining_lt {env : Env} {client : Bool} {job : RelayJob} {pos pos' : Position} {input : Input}
    {eff : Effect} (h : Turn env client job pos input pos' eff) : pos'.remaining < pos.remaining := by
  have hafter : ∀ ips, (afterResolution env client job ips).remaining ≤ 10 := by
    intro ips
    rcases afterResolution_cases env client job ips with ⟨_, -, h⟩ | ⟨_, -, h⟩ | ⟨-, _, h⟩ | ⟨-, h⟩ <;>
      rw [h] <;> simp only [Position.remaining, maxAttempts] <;> omega
  cases h with
  | unparsed _ | skipped _ | named _ _ | gaierror | unresolved | recorded => simp only [Position.remaining]; omega
  | literal _ _ | resolved => exact Nat.lt_of_le_of_lt (hafter _) (by decide)
  | posted _ => simp only [Position.remaining]; omega
  | @answered n vars res =>
    rcases afterPost_cases n vars res with ⟨_, -, h⟩ | ⟨-, hn, _, h⟩ | ⟨_, -, h⟩ <;> rw [h] <;>
      simp only [Position.remaining] <;> omega

/-! ## Work is paid for -/

/-- An observation of a step of a worker of process `p`. -/
def Obs.ofWorker (p : Nat) : Obs → Bool
  | .began p' _ | .job p' _ _ _ | .idled p' _ => p' = p
  | _ => false

def Obs.acceptedBy (p : Nat) : Obs → Bool
  | .enqueued _ p' _ _ => p' = p
  | _ => false

def Obs.startedAt (p : Nat) : Obs → Bool
  | .started p' => p' = p
  | _ => false

/-- The number of workers of a startup of process `p`. -/
def Env.workers (env : Env) (p : Nat) : Nat := (max (env.settings p).relayWorkerConcurrency 1).toNat

def World.todo (p : Nat) (w : World) : Nat := (w.procs p).dispatcher.todo

/-- One for a step of a worker. -/
def workOf (p : Nat) (o : Obs) : Nat := if o.ofWorker p then 1 else 0

/-- What the dispatcher of process `p` takes on: a job, or workers. -/
def gainOf (env : Env) (p : Nat) (o : Obs) : Nat :=
  jobSteps * (if o.acceptedBy p then 1 else 0) + 2 * env.workers p * (if o.startedAt p then 1 else 0)

/-- The states of the service. -/
def Reachable (env : Env) (w : World) : Prop := ∃ as os, Run (step env) World.initial as os w

theorem Reachable.workers {env : Env} {w : World} (h : Reachable env w) (p : Nat) : (w.procs p).dispatcher.WF := by
  obtain ⟨as, os, hrun⟩ := h
  exact workers_run hrun p

/-- The dispatcher after a step of task `t`. -/
theorem Dispatcher.todo_step {J : Type} {d : Dispatcher J Position} (hwf : d.WF) {t : Nat}
    {s : TaskState J Position} (hs : s.remaining < (d.tasks t).state.remaining) :
    (d.setState t s).todo + 1 ≤ d.todo := by
  have hborn : (d.tasks t).state ≠ .ended := by
    intro hended
    rw [hended] at hs
    exact Nat.not_lt_zero _ hs
  have hmove := Dispatcher.todo_setState (hwf.born hborn) s
  omega

/-- The dispatcher after the end of a job. -/
theorem Dispatcher.todo_jobDone {J : Type} {d d' : Dispatcher J Position} (hwf : d.WF) {t : Nat} {e : JobEnd}
    (hd : d.jobDone t e = some d') : d'.todo + 1 ≤ d.todo := by
  have hpos : ∀ pos : Position, 1 ≤ pos.remaining := by
    intro pos
    cases pos <;> simp only [Position.remaining] <;> omega
  obtain ⟨q, job, pos, hs, ⟨-, rfl⟩ | ⟨-, rfl⟩⟩ := jobDone_some hd
  · apply todo_step hwf
    rw [hs]
    exact Nat.succ_pos _
  · have hQ : (d.setQueue q { d.queues q with unfinished := (d.queues q).unfinished - 1 }).WF :=
      hwf.setQueue (fun hle => hwf.unused q hle)
    rw [← Dispatcher.todo_setQueue_items (d := d) (q := q)
      (Q := { d.queues q with unfinished := (d.queues q).unfinished - 1 }) rfl]
    apply todo_step hQ
    rw [setQueue_tasks, hs]
    have hone := hpos pos
    cases e <;> simp only [afterEnd, TaskState.remaining] <;> omega

/-- The dispatcher after a worker has got a job. -/
theorem Dispatcher.todo_take {J : Type} {d : Dispatcher J Position} (hwf : d.WF) {t q : Nat} {job : J}
    {Q : Queue J} (hs : (d.tasks t).state = .waiting q) (hc : (d.tasks t).cancelled = false)
    (hi : (d.queues q).items = job :: Q.items) :
    ((d.setQueue q Q).setState t (.running q job .start)).todo + 1 ≤ d.todo := by
  -- a worker that is not cancelled serves the current queue
  have hcur := hwf.serving t q hc (by rw [serves, hs])
  have ht : t < d.nextTask := by
    apply hwf.born
    rw [hs]
    intro hended
    cases hended
  have hmove := todo_setState (d := d.setQueue q Q) ht (.running q job .start)
  have hput := todo_setQueue (d := d) q Q
  have hwaiting : d.waitingJobs = Q.items.length + 1 := by
    rw [waitingJobs, hcur]
    simp only [hi, List.length_cons]
  rw [waitingJobs_setQueue hcur, hwaiting, Nat.mul_add] at hput
  rw [setQueue_tasks, hs] at hmove
  simp only [TaskState.remaining, Position.remaining] at hmove
  simp only [jobSteps] at hput
  omega

section

variable {env : Env} {w w' : World} {a : Act} {o : Obs} {as as' : List Act} {os os' : List Obs}

/-- A step that replaces one process, with what that process does and takes on. -/
theorem todo_at {p' work gain : Nat} {P : Proc} (p : Nat) (hprocs : w'.procs = Function.update w.procs p' P)
    (h : P.dispatcher.todo + work ≤ (w.procs p').dispatcher.todo + gain)
    (hwork : workOf p o = if p' = p then work else 0) (hgain : (if p' = p then gain else 0) ≤ gainOf env p o) :
    w'.todo p + workOf p o ≤ w.todo p + gainOf env p o := by
  rw [World.todo, World.todo, hprocs, hwork]
  by_cases hp : p' = p
  · subst hp
    rw [if_pos rfl] at hgain ⊢
    rw [Function.update_self]
    omega
  · rw [if_neg hp] at hgain ⊢
    rw [Function.update_of_ne (Ne.symm hp)]
    omega

/-- A step that is no work. -/
theorem todo_quiet (p p' : Nat) {P : Proc} (hprocs : w'.procs = Function.update w.procs p' P)
    (h : P.dispatcher.todo ≤ (w.procs p').dispatcher.todo) (ho : o.ofWorker p = false) :
    w'.todo p + workOf p o ≤ w.todo p + gainOf env p o := by
  have hwork : workOf p o = if p' = p then 0 else 0 := by
    rw [workOf, ho, ite_self]
    rfl
  have hgain : (if p' = p then 0 else 0) ≤ gainOf env p o := by
    rw [ite_self]
    exact Nat.zero_le _
  exact todo_at p hprocs h hwork hgain

/-- A step of a worker pays for itself. -/
theorem todo_worker {p' : Nat} {P : Proc} (p : Nat) (hprocs : w'.procs = Function.update w.procs p' P)
    (h : P.dispatcher.todo + 1 ≤ (w.procs p').dispatcher.todo) (ho : o.ofWorker p = decide (p' = p)) :
    w'.todo p + workOf p o ≤ w.todo p + gainOf env p o := by
  have hwork : workOf p o = if p' = p then 1 else 0 := by
    simp only [workOf, ho, decide_eq_true_eq]
  have hgain : (if p' = p then 0 else 0) ≤ gainOf env p o := by
    rw [ite_self]
    exact Nat.zero_le _
  exact todo_at p hprocs h hwork hgain

/-- Every step is paid for. -/
theorem Move.todo_le (hm : Move env w a w' o) (hw : ∀ p, (w.procs p).dispatcher.WF) (p : Nat) :
    w'.todo p + workOf p o ≤ w.todo p + gainOf env p o := by
  cases hm with
  | @started p' hc =>
    apply todo_at p rfl (Dispatcher.todo_startup _ _ _) (ite_self 0).symm
    simp only [gainOf, Obs.startedAt, decide_eq_true_eq, Env.workers]
    by_cases hp : p' = p
    · subst hp
      simp only [if_true]
      omega
    · rw [if_neg hp]
      exact Nat.zero_le _
  | @stopped p' _ _ _ => exact todo_quiet p p' rfl (Dispatcher.todo_shutdown _) rfl
  | @closed p' _ _ => exact todo_quiet p p' rfl (Nat.le_refl _) rfl
  | @countedRelay _ i _ _ _ | @countedOnly _ i _ _ => exact todo_quiet p i.pid rfl (Nat.le_refl _) rfl
  | rejected _ | built _ _ _ | inserted _ _ | conflict _ _ _ | lostInsert _ _ _ | replayed _ _
  | lostLookup _ _ | refused _ | uninitialised _ _ | marked _ | deleted => exact Nat.le_add_right _ _
  | @enqueued r q i d hh hq hd =>
    have htodo : d.todo ≤ (w.procs i.pid).dispatcher.todo + jobSteps := by
      rw [hd]
      have hput := Dispatcher.todo_setQueue (d := (w.procs i.pid).dispatcher) q
        { (w.procs i.pid).dispatcher.queues q with
          items := ((w.procs i.pid).dispatcher.queues q).items ++ [relayJob (env.settings i.pid) i.event]
          unfinished := ((w.procs i.pid).dispatcher.queues q).unfinished + 1 }
      rw [Dispatcher.waitingJobs_setQueue hq, List.length_append, List.length_singleton] at hput
      simp only [Dispatcher.waitingJobs, hq, jobSteps] at hput ⊢
      omega
    apply todo_at p rfl htodo (ite_self 0).symm
    simp only [gainOf, Obs.acceptedBy, decide_eq_true_eq]
    by_cases hp : i.pid = p
    · simp only [hp, if_true]
      omega
    · rw [if_neg hp]
      exact Nat.zero_le _
  | @began p' t q hs hc hq =>
    have hlt : (.waiting q : TaskState RelayJob Position).remaining <
        ((w.procs p').dispatcher.tasks t).state.remaining := by
      simp only [hs, TaskState.remaining]
      omega
    exact todo_worker p rfl (Dispatcher.todo_step (hw p') hlt) rfl
  | @beganLate p' t hs hc hq =>
    have hlt : (.ended : TaskState RelayJob Position).remaining <
        ((w.procs p').dispatcher.tasks t).state.remaining := by
      simp only [hs, TaskState.remaining]
      omega
    exact todo_worker p rfl (Dispatcher.todo_step (hw p') hlt) rfl
  | @taken p' t q job rest hs hc hi =>
    have htodo := Dispatcher.todo_take (Q := { (w.procs p').dispatcher.queues q with items := rest }) (hw p') hs hc hi
    exact todo_worker p rfl htodo rfl
  | @worked p' t q job pos pos' input eff hs hc ha hr =>
    have hlt : (.running q job pos' : TaskState RelayJob Position).remaining <
        ((w.procs p').dispatcher.tasks t).state.remaining := by
      rw [hs]
      exact Nat.succ_lt_succ (Turn.of_advance ha).remaining_lt
    have htodo := Dispatcher.todo_step (hw p') hlt
    exact todo_worker p rfl (by rw [Proc.count_dispatcher]; exact htodo) rfl
  | @recorded p' t q job out hs hc =>
    have hlt : (.running q job .returned : TaskState RelayJob Position).remaining <
        ((w.procs p').dispatcher.tasks t).state.remaining := by
      simp only [hs, TaskState.remaining, Position.remaining]
      omega
    exact todo_worker p rfl (Dispatcher.todo_step (hw p') hlt) rfl
  | @finished p' t q job pos e d hs hc he hd => exact todo_worker p rfl (Dispatcher.todo_jobDone (hw p') hd) rfl
  | @dropped p' t q job pos d hs hc hd => exact todo_worker p rfl (Dispatcher.todo_jobDone (hw p') hd) rfl
  | @idled p' t hs hc =>
    have hlt : (.ended : TaskState RelayJob Position).remaining <
        ((w.procs p').dispatcher.tasks t).state.remaining := by
      rcases hs with hs | ⟨q, hs⟩ <;> simp only [hs, TaskState.remaining] <;> omega
    exact todo_worker p rfl (Dispatcher.todo_step (hw p') hlt) rfl

/-- The potential of a process. -/
theorem todo_potential (env : Env) (p : Nat) :
    Potential (step env) (Reachable env) (World.todo p) (workOf p) (gainOf env p) where
  keeps := by
    intro w a w' o h hs
    obtain ⟨as, os, hrun⟩ := h
    exact ⟨as ++ [a], os ++ [o], hrun.snoc hs⟩
  pays := by
    intro w a w' o h hs
    exact (Move.of_step hs).todo_le h.workers p

/-- **Bounded work.** In every run, the workers of a process take at most 13
steps for each job that was accepted, and 2 for each worker that was started. -/
theorem worker_steps_bounded (h : Run (step env) World.initial as os w) (p : Nat) :
    os.countP (Obs.ofWorker p) ≤
      jobSteps * os.countP (Obs.acceptedBy p) + 2 * env.workers p * os.countP (Obs.startedAt p) := by
  have htotal := (todo_potential env p).total h ⟨[], [], .nil⟩
  have hinitial : World.initial.todo p = 0 := rfl
  have hgain : worth (gainOf env p) os =
      jobSteps * os.countP (Obs.acceptedBy p) + 2 * env.workers p * os.countP (Obs.startedAt p) :=
    worth_prices _ _ _ _ os
  rw [hinitial, hgain, Nat.zero_add] at htotal
  have hwork : worth (workOf p) os = os.countP (Obs.ofWorker p) := worth_count _ os
  omega

/-! ## Somebody is at work -/

/-- The crew of every dispatcher is in order, and a running dispatcher has
workers. -/
structure World.Staffed (w : World) (p : Nat) : Prop where
  crew : Dispatcher.Crew (w.procs p).dispatcher
  manned : (w.procs p).dispatcher.dispatchQueue ≠ none → (w.procs p).dispatcher.dispatchWorkers ≠ []

theorem staffed_initial (p : Nat) : World.initial.Staffed p := by
  refine ⟨⟨?_, ?_, List.nodup_nil, ?_⟩, ?_⟩
  · intro t ht
    cases ht
  · intro t ht
    exact absurd ht (Nat.not_lt_zero t)
  · intro q
    exact Ledger.empty (fun t => rfl)
  · intro hq
    exact absurd rfl hq

theorem Move.crew (hm : Move env w a w' o) (hw : ∀ p, (w.procs p).dispatcher.WF)
    (hc : ∀ p, Dispatcher.Crew (w.procs p).dispatcher) (p : Nat) : Dispatcher.Crew (w'.procs p).dispatcher := by
  have at_p : ∀ p' P, Dispatcher.Crew (P : Proc).dispatcher →
      Dispatcher.Crew ((w.setProc p' P).procs p).dispatcher := by
    intro p' P hP
    rcases w.setProc_cases p p' P with ⟨-, h⟩ | h
    · rw [h]
      exact hP
    · rw [h]
      exact hc p
  cases hm with
  | @started p' _ =>
    apply at_p
    cases hq : (w.procs p').dispatcher.dispatchQueue with
    | some q =>
      rw [Dispatcher.startup_running (by rw [hq]; rfl)]
      exact hc p'
    | none => exact (hc p').startup (hw p') hq _ _
  | stopped _ _ => exact at_p _ _ (hc _).shutdown
  | closed _ _ | countedRelay _ _ _ | countedOnly _ _ => exact at_p _ _ (hc _)
  | rejected _ | built _ _ _ | inserted _ _ | conflict _ _ _ | lostInsert _ _ _ | replayed _ _
  | lostLookup _ _ | refused _ | uninitialised _ _ | marked _ | deleted => exact hc p
  | enqueued _ _ hd =>
    subst hd
    exact at_p _ _ ((hc _).put _)
  | began hs _ _ =>
    apply at_p
    apply (hc _).setState
    · exact .inr trivial
    · intro r
      simp only [Dispatcher.owes, hs]
  | @beganLate p' t hs hcancel hq =>
    -- without a queue every task is cancelled
    have hmem := (hw p').current t hcancel (by rw [Dispatcher.live, hs]; trivial)
    rw [(hw p').stopped hq] at hmem
    cases hmem
  | taken hs _ hi =>
    apply at_p
    apply (hc _).turn
    · exact .inr trivial
    · simp only [hi, Dispatcher.owes, hs, List.length_cons, if_true]
      omega
    · intro r hr
      simp only [Dispatcher.owes, hs, if_neg (Ne.symm hr)]
  | worked hs _ _ _ =>
    apply at_p
    rw [Proc.count_dispatcher]
    apply (hc _).setState
    · exact .inr trivial
    · intro r
      simp only [Dispatcher.owes, hs]
  | recorded hs _ =>
    apply at_p
    apply (hc _).setState
    · exact .inr trivial
    · intro r
      simp only [Dispatcher.owes, hs]
  | @finished p' t q job pos e d hs _ he hd =>
    apply at_p
    apply (hc p').jobDone hd (.inr _)
    intro hcancelled
    subst hcancelled
    cases pos <;> cases he
  | dropped _ hcancel hd => exact at_p _ _ ((hc _).jobDone hd (.inl hcancel))
  | idled hs hcancel =>
    apply at_p
    apply (hc _).setState (.inl hcancel)
    intro r
    rcases hs with hs | ⟨q, hs⟩ <;> simp only [Dispatcher.owes, hs]

theorem staffed_run (h : Run (step env) World.initial as os w) (p : Nat) : w.Staffed p := by
  induction h generalizing p with
  | nil => exact staffed_initial p
  | @snoc t₀ t₁ as os a o hrun hs ih =>
    have hm := Move.of_step hs
    refine ⟨hm.crew (workers_run hrun) (fun p' => (ih p').crew) p, ?_⟩
    intro hq
    rcases hm.globals p with ⟨hqueue, hworkers⟩ | ⟨-, hd⟩ | ⟨-, hd⟩
    · rw [hworkers]
      exact (ih p).manned (hqueue ▸ hq)
    · rw [hd]
      cases hold : (t₀.procs p).dispatcher.dispatchQueue with
      | some q =>
        rw [Dispatcher.startup_running (by rw [hold]; rfl)]
        exact (ih p).manned (by rw [hold]; exact nofun)
      | none =>
        rw [Dispatcher.startup_idle hold, List.ne_nil_iff_length_pos, List.length_range']
        omega
    · rw [hd] at hq
      exact absurd rfl hq

/-! ## Coming to rest -/

/-- The steps of the workers of process `p`. -/
def Act.ofWorker (p : Nat) : Act → Prop
  | .begin p' _ | .take p' _ | .work p' _ _ | .finish p' _ | .cancelled p' _ => p' = p
  | _ => False

/-- A job that has not ended can go on, whatever it waits for. -/
theorem advance_enabled (client : Bool) (job : RelayJob) {p : Nat} {pos : Position} (t : Nat)
    (htarget : ∃ target, env.urlparse (env.settings p).targetUrl = .ok target) (he : pos.ended? = none) :
    ∃ input, (advance env client job pos input).isSome ∧ (Act.work p t input).Expected env := by
  cases pos with
  | start =>
    refine ⟨.call, ?_, htarget⟩
    simp only [advance]
    split
    · rfl
    · rfl
    · split <;> rfl
  | resolving => exact ⟨.resolved (.gaierror ""), rfl, trivial⟩
  | attempt n vars => exact ⟨.post ⟨0, by decide⟩ [] none, rfl, trivial⟩
  | inFlight n vars => exact ⟨.answered (.response 200), rfl, trivial⟩
  | persist out => exact ⟨.persist, rfl, trivial⟩
  | returned | raised _ => cases he

theorem Dispatcher.jobDone_isSome {J P : Type} {d : Dispatcher J P} {t q : Nat} {job : J} {pos : P}
    (hs : (d.tasks t).state = .running q job pos) (e : JobEnd) : (d.jobDone t e).isSome := by
  simp only [Dispatcher.jobDone, hs]
  split <;> rfl

/-- A task that has not ended has a step, or waits for a job that is not there. -/
theorem worker_enabled {p t : Nat} (htarget : ∃ target, env.urlparse (env.settings p).targetUrl = .ok target)
    (hne : ((w.procs p).dispatcher.tasks t).state ≠ .ended) :
    (∃ a, a.ofWorker p ∧ a.Expected env ∧ step env w a ≠ none) ∨
      (((w.procs p).dispatcher.tasks t).cancelled = false ∧
        ∃ q, ((w.procs p).dispatcher.tasks t).state = .waiting q ∧ (w.procs p).dispatcher.itemsAt q = []) := by
  cases hc : ((w.procs p).dispatcher.tasks t).cancelled with
  | true =>
    refine .inl ⟨.cancelled p t, rfl, trivial, ?_⟩
    cases hs : ((w.procs p).dispatcher.tasks t).state with
    | created | waiting q => simp [step, stepCancelled, hs, hc]
    | running q job pos =>
      obtain ⟨d, hd⟩ := Option.isSome_iff_exists.mp (Dispatcher.jobDone_isSome hs .cancelled)
      simp [step, stepCancelled, hs, hc, hd]
    | ended => exact absurd hs hne
  | false =>
    cases hs : ((w.procs p).dispatcher.tasks t).state with
    | created =>
      refine .inl ⟨.begin p t, rfl, trivial, ?_⟩
      cases hq : (w.procs p).dispatcher.dispatchQueue <;> simp [step, Dispatcher.begin, hs, hc, hq]
    | waiting q =>
      cases hi : ((w.procs p).dispatcher.queues q).items with
      | nil => exact .inr ⟨rfl, q, rfl, hi⟩
      | cons job rest =>
        refine .inl ⟨.take p t, rfl, trivial, ?_⟩
        simp [step, Dispatcher.take, Queue.getNowait, hs, hc, hi]
    | running q job pos =>
      cases he : pos.ended? with
      | some e =>
        refine .inl ⟨.finish p t, rfl, trivial, ?_⟩
        obtain ⟨d, hd⟩ := Option.isSome_iff_exists.mp (Dispatcher.jobDone_isSome hs e)
        simp [step, stepFinish, hs, hc, he, hd]
      | none =>
        obtain ⟨input, hadv, hexp⟩ := advance_enabled (w.procs p).client job t htarget he
        obtain ⟨⟨pos', eff⟩, hadv⟩ := Option.isSome_iff_exists.mp hadv
        refine .inl ⟨.work p t input, rfl, hexp, ?_⟩
        simp [step, stepJob, hs, hc, hadv]
    | ended => exact absurd hs hne

/-- Nothing waits, nothing runs, and every worker that is left waits for a job
of the current queue. -/
structure Dispatcher.AtRest {J P : Type} (d : Dispatcher J P) : Prop where
  waiting : d.waitingJobs = 0
  idle : ∀ t, (d.tasks t).state = .ended ∨
    ((d.tasks t).cancelled = false ∧ ∃ q, (d.tasks t).state = .waiting q ∧ d.dispatchQueue = some q)

/-- Workers without a step are at rest. -/
theorem stuck_at_rest (h : Run (step env) World.initial as os w) {p : Nat}
    (htarget : ∃ target, env.urlparse (env.settings p).targetUrl = .ok target)
    (hstuck : Stuck (step env) (fun a => a.ofWorker p ∧ a.Expected env) w) :
    (w.procs p).dispatcher.AtRest := by
  have hwf := workers_run h p
  have hstaff := staffed_run h p
  have hidle : ∀ t, ((w.procs p).dispatcher.tasks t).state ≠ .ended →
      ((w.procs p).dispatcher.tasks t).cancelled = false ∧
        ∃ q, ((w.procs p).dispatcher.tasks t).state = .waiting q ∧ (w.procs p).dispatcher.itemsAt q = [] := by
    intro t hne
    rcases worker_enabled htarget hne with ⟨a, ha, hexp, hsome⟩ | hwait
    · exact absurd (hstuck a ⟨ha, hexp⟩) hsome
    · exact hwait
  refine ⟨?_, ?_⟩
  · cases hq : (w.procs p).dispatcher.dispatchQueue with
    | none => rw [Dispatcher.waitingJobs, hq]
    | some q =>
      -- one of the workers waits at the current queue, so the queue is empty
      obtain ⟨t, ht⟩ := List.exists_mem_of_ne_nil _ (hstaff.manned (by rw [hq]; exact nofun))
      obtain ⟨hc, hlive⟩ := hstaff.crew.alive t ht
      have hne : ((w.procs p).dispatcher.tasks t).state ≠ .ended := by
        intro hended
        rw [Dispatcher.live, hended] at hlive
        exact hlive
      obtain ⟨-, r, hs, hi⟩ := hidle t hne
      have hr := hwf.serving t r hc (by rw [Dispatcher.serves, hs])
      obtain rfl := Option.some.inj (hq.symm.trans hr)
      rw [Dispatcher.waitingJobs, hq]
      exact List.length_eq_zero_iff.mpr hi
  · intro t
    by_cases hne : ((w.procs p).dispatcher.tasks t).state = .ended
    · exact .inl hne
    · obtain ⟨hc, q, hs, -⟩ := hidle t hne
      exact .inr ⟨hc, q, hs, hwf.serving t q hc (by rw [Dispatcher.serves, hs])⟩

/-- The steps of a worker work, and bring nothing in. -/
theorem worker_working (env : Env) (p : Nat) (C : Act → Prop) :
    Working (step env) (fun a => a.ofWorker p ∧ C a) (workOf p) (gainOf env p) := by
  intro w a w' o ha hs
  obtain ⟨ha, -⟩ := ha
  have hm := Move.of_step hs
  cases hm with
  | began | beganLate | taken | worked | recorded | finished | dropped | idled =>
    cases ha
    simp [workOf, gainOf, Obs.ofWorker, Obs.acceptedBy, Obs.startedAt]
  | started | stopped | closed | rejected | built | inserted | conflict | lostInsert | replayed | lostLookup
  | countedRelay | countedOnly | enqueued | refused | uninitialised | marked | deleted => exact ha.elim

/-- At rest, in a run whose jobs met only expected exceptions, each relay that
was accepted since the last shutdown has its outcome. -/
theorem rest_recorded (h : Run (step env) World.initial as os w) (hexp : ∀ a ∈ as, a.Expected env) {p : Nat}
    (hrest : (w.procs p).dispatcher.AtRest) {r q : Nat} {job : RelayJob} (he : .enqueued r p q job ∈ os)
    (hstop : ¬ StoppedAfter p (.enqueued r p q job) os) :
    ∀ row ∈ w.store.rows, row.id = job.eventId → FinalStatus row.relayStatus := by
  have hq := (accepting_queue h he).resolve_left hstop
  have hsettled : stage job.eventId os = .settled := by
    rcases accepted_past h he with hst | ⟨t, hst⟩ | hst | hst
    · obtain ⟨job', hjob', -⟩ := (owned_run h).queuedBack _ p q hst
      have hempty := hrest.waiting
      rw [Dispatcher.waitingJobs, hq] at hempty
      rw [World.itemsAt, Dispatcher.itemsAt, List.length_eq_zero_iff.mp hempty] at hjob'
      cases hjob'
    · obtain ⟨job', pos, hjob', -, -⟩ := (owned_run h).runningBack _ p q t hst
      have hrunning := Dispatcher.jobAt_eq_some.mp hjob'
      rcases hrest.idle t with hended | ⟨-, r', hwaiting, -⟩
      · rw [hended] at hrunning
        cases hrunning
      · rw [hwaiting] at hrunning
        cases hrunning
    · exact hst
    · rcases accepted_stranded h he hst with hs | ⟨p', t', hfin⟩
      · exact absurd hs hstop
      · exact finished_settled h hexp hfin
  intro row hrow hid
  have hadm := statuses_run h row hrow
  rw [hid, hsettled] at hadm
  exact hadm

/-- **Relays drain.** From every state of the service the workers of a process
come to rest, and no schedule of them takes more steps than they had left; at
rest, each relay accepted since the last shutdown has its outcome. -/
theorem relays_drain (h : Run (step env) World.initial as os w) (hexp : ∀ a ∈ as, a.Expected env) (p : Nat)
    (htarget : ∃ target, env.urlparse (env.settings p).targetUrl = .ok target) :
    (∃ as' os' w', Run (step env) w as' os' w' ∧ (∀ a ∈ as', a.ofWorker p ∧ a.Expected env) ∧
      (w'.procs p).dispatcher.AtRest) ∧
    (∀ as' os' w', Run (step env) w as' os' w' → (∀ a ∈ as', a.ofWorker p) →
      w'.todo p + as'.length ≤ w.todo p) ∧
    ((w.procs p).dispatcher.AtRest → ∀ r q job, .enqueued r p q job ∈ os →
      ¬ StoppedAfter p (.enqueued r p q job) os →
      ∀ row ∈ w.store.rows, row.id = job.eventId → FinalStatus row.relayStatus) := by
  have hreach : Reachable env w := ⟨as, os, h⟩
  have hp := todo_potential env p
  refine ⟨?_, ?_, ?_⟩
  · obtain ⟨as', os', w', hrun, hacts, hstuck⟩ := hp.reaches_stuck (worker_working env p (Act.Expected env)) hreach
    exact ⟨as', os', w', hrun, hacts, stuck_at_rest (h.append hrun) htarget hstuck⟩
  · intro as' os' w' hrun hacts
    exact hp.length_le (worker_working env p (fun _ => True)) hrun hreach (fun a ha => ⟨hacts a ha, trivial⟩)
  · intro hrest r q job he hstop
    exact rest_recorded h hexp hrest he hstop

end

/-- The delivery of the sample event takes eight steps of the worker, within the
bound of 15. -/
theorem worker_steps_bounded_delivered :
    ∃ w os, exec (step sampleEnv) World.initial (acceptActs ++ deliverActs) = some (w, os) ∧
      os.countP (Obs.ofWorker 0) = 8 ∧ os.countP (Obs.ofWorker 0) ≤ 15 := by
  have hrun : (exec (step sampleEnv) World.initial (acceptActs ++ deliverActs)).map (fun r =>
      (r.2.countP (Obs.ofWorker 0), r.2.countP (Obs.acceptedBy 0), r.2.countP (Obs.startedAt 0))) =
        some (8, 1, 1) := by
    decide +kernel
  obtain ⟨⟨w, os⟩, h, hfacts⟩ := Option.map_eq_some_iff.mp hrun
  simp only [Prod.mk.injEq] at hfacts
  obtain ⟨hworker, haccepted, hstarted⟩ := hfacts
  have hbound := worker_steps_bounded (Run.of_exec h) 0
  rw [haccepted, hstarted] at hbound
  exact ⟨w, os, h, hworker, hbound⟩

/-- After the sample event is accepted its worker comes to rest, in at most 15
steps. -/
theorem relays_drain_accepted :
    ∃ w os, exec (step sampleEnv) World.initial acceptActs = some (w, os) ∧ w.todo 0 = 15 ∧
      (∃ as' os' w', Run (step sampleEnv) w as' os' w' ∧ (w'.procs 0).dispatcher.AtRest) ∧
      ∀ as' os' w', Run (step sampleEnv) w as' os' w' → (∀ a ∈ as', a.ofWorker 0) → as'.length ≤ 15 := by
  have hrun : (exec (step sampleEnv) World.initial acceptActs).map (fun r =>
      ((r.1.procs 0).dispatcher.waitingJobs, (r.1.procs 0).dispatcher.nextTask,
        (r.1.procs 0).dispatcher.tasks 0 |>.state.remaining)) = some (1, 1, 2) := by
    decide +kernel
  obtain ⟨⟨w, os⟩, h, hfacts⟩ := Option.map_eq_some_iff.mp hrun
  simp only [Prod.mk.injEq] at hfacts
  obtain ⟨hwaiting, hnext, htask⟩ := hfacts
  have htodo : w.todo 0 = 15 := by
    rw [World.todo, Dispatcher.todo, Dispatcher.load, hwaiting, hnext, Finset.sum_range_one, htask]
    rfl
  have hexp : ∀ a ∈ acceptActs, a.Expected sampleEnv := by
    intro a ha
    simp only [acceptActs, List.mem_cons, List.not_mem_nil, or_false] at ha
    rcases ha with rfl | rfl | rfl | rfl | rfl <;> trivial
  have hparse : sampleEnv.urlparse (sampleEnv.settings 0).targetUrl = .ok ("http", some "hooks.test") := by
    simp only [sampleEnv, if_true]
  obtain ⟨⟨as', os', w', hreach, -, hrest⟩, hbound, -⟩ := relays_drain (Run.of_exec h) hexp 0 ⟨_, hparse⟩
  refine ⟨w, os, h, htodo, ⟨as', os', w', hreach, hrest⟩, ?_⟩
  intro as' os' w' hr ha
  have hlength := hbound as' os' w' hr ha
  omega

end WebhookRelay
