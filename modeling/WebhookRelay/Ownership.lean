import WebhookRelay.Rows
import WebhookRelay.Workers

/-
  Who holds the relay of an event. The abstract life of a relay is a token
  (`Stage`): with the request's handler, in a queue, with a worker, and in the
  end recorded or stranded. The stage of an event is read off the history
  alone; `Owned` says that handlers, queues and workers hold exactly what the
  stages say, so no relay is ever in two places.

  `owned_run` proves this of every run, and `stage_moves` that stages move only
  along `Stage.Next`: the service refines the life of a token.
-/
namespace WebhookRelay

open Py Transition

/-! ## The life of a relay -/

/-- Where the relay of an event is. -/
inductive Stage where
  | unborn
  | intake (r : Nat)
  | idle
  | held (r : Nat)
  | queued (p q : Nat)
  | running (p q t : Nat)
  | settled
  | stranded
  deriving DecidableEq

/-- The moves of a relay from one place to the next. -/
inductive Stage.Next : Stage → Stage → Prop where
  | build {r : Nat} : Next .unborn (.intake r)
  | insertPlain {r : Nat} : Next (.intake r) .idle
  | insertScheduled {r : Nat} : Next (.intake r) (.held r)
  | enqueue {r p q : Nat} : Next (.held r) (.queued p q)
  | mark {r : Nat} : Next (.held r) .settled
  | lose {r : Nat} : Next (.held r) .stranded
  | take {p q t : Nat} : Next (.queued p q) (.running p q t)
  | record {p q t : Nat} : Next (.running p q t) .settled
  | strand {p q t : Nat} : Next (.running p q t) .stranded

/-- What a step of the job's task does to the stage. -/
def Stage.job (st : Stage) (p t : Nat) : Effect → Stage
  | .taken =>
    match st with
    | .queued _ q => .running p q t
    | st => st
  | .recorded _ => .settled
  | .finished | .dropped =>
    match st with
    | .running _ _ _ => .stranded
    | st => st
  | .called | .resolved _ | .posted _ | .answered _ => st

/-- The stage of a row that has just been inserted by request `r`. -/
def insertedStage (r : Nat) (row : Event) : Stage :=
  if row.relayStatus = some "scheduled" then .held r else .idle

/-- The stage of event `id` after an observation. -/
def Stage.after (id : String) (st : Stage) (o : Obs) : Stage :=
  match o with
  | .built r i => if i.event.id = id then .intake r else st
  | .inserted r row => if row.id = id then insertedStage r row else st
  | .enqueued _ p q job => if job.eventId = id then .queued p q else st
  | .uninitialised _ id' => if id' = id then .stranded else st
  | .marked _ id' => if id' = id then .settled else st
  | .job p t id' eff => if id' = id then st.job p t eff else st
  | .started _ | .stopped _ | .closed _ | .rejected _ _ | .conflict _ | .replayed _ _ | .lost _
  | .counted _ _ | .refused _ | .began _ _ | .idled _ _ | .deleted _ => st

def stage (id : String) (os : List Obs) : Stage := os.foldl (Stage.after id) .unborn

theorem stage_snoc (id : String) (os : List Obs) (o : Obs) :
    stage id (os ++ [o]) = (stage id os).after id o := by
  rw [stage, List.foldl_append]
  rfl

/-- The event an observation moves. -/
def Obs.event : Obs → Option String
  | .built _ i => some i.event.id
  | .inserted _ row => some row.id
  | .enqueued _ _ _ j => some j.eventId
  | .uninitialised _ id => some id
  | .marked _ id => some id
  | .job _ _ id _ => some id
  | .started _ | .stopped _ | .closed _ | .rejected _ _ | .conflict _ | .replayed _ _ | .lost _
  | .counted _ _ | .refused _ | .began _ _ | .idled _ _ | .deleted _ => none

theorem stage_other {id : String} {os : List Obs} {o : Obs} (h : o.event ≠ some id) :
    stage id (os ++ [o]) = stage id os := by
  rw [stage_snoc]
  cases o with
  | built _ _ | inserted _ _ | enqueued _ _ _ _ | uninitialised _ _ | marked _ _ | job _ _ _ _ =>
    apply if_neg
    intro he
    exact h (he ▸ rfl)
  | started _ | stopped _ | closed _ | rejected _ _ | conflict _ | replayed _ _ | lost _ | counted _ _
  | refused _ | began _ _ | idled _ _ | deleted _ => rfl

/-! ## What queues and workers hold -/

/-- The job a task runs, with the queue it came from and its position. -/
def TaskState.job? {J P : Type} : TaskState J P → Option (Nat × J × P)
  | .running q job pos => some (q, job, pos)
  | .created | .waiting _ | .ended => none

namespace Dispatcher

variable {J P : Type}

def itemsAt (d : Dispatcher J P) (q : Nat) : List J := (d.queues q).items

def jobAt (d : Dispatcher J P) (t : Nat) : Option (Nat × J × P) := (d.tasks t).state.job?

theorem jobAt_eq_some {d : Dispatcher J P} {t q : Nat} {job : J} {pos : P} :
    d.jobAt t = some (q, job, pos) ↔ (d.tasks t).state = .running q job pos := by
  unfold jobAt TaskState.job?
  constructor
  · intro h
    cases hs : (d.tasks t).state with
    | running q' job' pos' =>
      rw [hs] at h
      cases h
      rfl
    | created | waiting _ | ended =>
      rw [hs] at h
      cases h
  · intro h
    rw [h]

theorem itemsAt_setQueue (d : Dispatcher J P) (q : Nat) (Q : Queue J) :
    (d.setQueue q Q).itemsAt = Function.update d.itemsAt q Q.items := by
  funext u
  by_cases h : u = q
  · subst h
    simp [itemsAt]
  · simp [itemsAt, Function.update_of_ne h]

theorem jobAt_setState (d : Dispatcher J P) (t : Nat) (s : TaskState J P) :
    (d.setState t s).jobAt = Function.update d.jobAt t s.job? := by
  funext u
  by_cases h : u = t
  · subst h
    simp [jobAt]
  · simp [jobAt, Function.update_of_ne h]

/-- A task without a job that gets none. -/
theorem update_jobAt_idle {d : Dispatcher J P} {t : Nat} {s : TaskState J P}
    (h : (d.tasks t).state = .created ∨ ∃ q, (d.tasks t).state = .waiting q) (hs : s.job? = none) :
    Function.update d.jobAt t s.job? = d.jobAt := by
  have hnone : d.jobAt t = none := by
    unfold jobAt
    rcases h with h | ⟨q, h⟩ <;> rw [h] <;> rfl
  rw [hs, ← hnone]
  exact Function.update_eq_self ..

theorem itemsAt_startup {d : Dispatcher J P} (h : d.WF) (workerCount queueSize : Int) :
    (d.startup workerCount queueSize).itemsAt = d.itemsAt := by
  cases hq : d.dispatchQueue with
  | some q => rw [startup_running (by rw [hq]; rfl)]
  | none =>
    rw [startup_idle hq]
    funext u
    by_cases hu : u = d.nextQueue
    · subst hu
      simp [itemsAt, h.unused _ (Nat.le_refl _)]
    · simp [itemsAt, Function.update_of_ne hu]

theorem jobAt_startup {d : Dispatcher J P} (h : d.WF) (workerCount queueSize : Int) :
    (d.startup workerCount queueSize).jobAt = d.jobAt := by
  cases hq : d.dispatchQueue with
  | some q => rw [startup_running (by rw [hq]; rfl)]
  | none =>
    rw [startup_idle hq]
    funext u
    by_cases hu : u ∈ List.range' d.nextTask (max workerCount 1).toNat
    · have hold := h.unborn u (List.mem_range'_1.mp hu).1
      simp only [jobAt, if_pos hu, hold]
      rfl
    · simp only [jobAt, if_neg hu]

theorem jobAt_shutdown (d : Dispatcher J P) : d.shutdown.jobAt = d.jobAt := by
  funext u
  simp only [jobAt, shutdown_state]

theorem jobDone_views {d d' : Dispatcher J P} {t : Nat} {e : JobEnd} (h : d.jobDone t e = some d') :
    d'.itemsAt = d.itemsAt ∧ d'.jobAt = Function.update d.jobAt t none := by
  obtain ⟨q, job, pos, hs, ⟨-, rfl⟩ | ⟨-, rfl⟩⟩ := jobDone_some h
  · exact ⟨rfl, jobAt_setState ..⟩
  · refine ⟨?_, ?_⟩
    · have hitems := itemsAt_setQueue d q { d.queues q with unfinished := (d.queues q).unfinished - 1 }
      exact hitems.trans (Function.update_eq_self q d.itemsAt)
    · rw [jobAt_setState]
      cases e <;> rfl

end Dispatcher

/-- The jobs waiting in a queue, and the job a task runs. -/
def World.itemsAt (w : World) (p : Nat) : Nat → List RelayJob := (w.procs p).dispatcher.itemsAt

def World.jobAt (w : World) (p : Nat) : Nat → Option (Nat × RelayJob × Position) :=
  (w.procs p).dispatcher.jobAt

theorem World.itemsAt_setProc (w : World) (p : Nat) (P : Proc) :
    (w.setProc p P).itemsAt = Function.update w.itemsAt p P.dispatcher.itemsAt := by
  funext u
  by_cases h : u = p
  · subst h
    simp [World.itemsAt]
  · simp [World.itemsAt, Function.update_of_ne h]

theorem World.jobAt_setProc (w : World) (p : Nat) (P : Proc) :
    (w.setProc p P).jobAt = Function.update w.jobAt p P.dispatcher.jobAt := by
  funext u
  by_cases h : u = p
  · subst h
    simp [World.jobAt]
  · simp [World.jobAt, Function.update_of_ne h]

theorem World.itemsAt_kept {w : World} {p : Nat} {P : Proc} (hi : P.dispatcher.itemsAt = w.itemsAt p) :
    (w.setProc p P).itemsAt = w.itemsAt := by
  rw [World.itemsAt_setProc, hi]
  exact Function.update_eq_self ..

theorem World.jobAt_kept {w : World} {p : Nat} {P : Proc} (hj : P.dispatcher.jobAt = w.jobAt p) :
    (w.setProc p P).jobAt = w.jobAt := by
  rw [World.jobAt_setProc, hj]
  exact Function.update_eq_self ..

/-- Replacing a process by one with the same jobs moves no job. -/
theorem World.views_setProc {w : World} {p : Nat} {P : Proc}
    (hi : P.dispatcher.itemsAt = w.itemsAt p) (hj : P.dispatcher.jobAt = w.jobAt p) :
    (w.setProc p P).itemsAt = w.itemsAt ∧ (w.setProc p P).jobAt = w.jobAt :=
  ⟨World.itemsAt_kept hi, World.jobAt_kept hj⟩

theorem World.mem_itemsAt {w : World} {p q : Nat} {job : RelayJob} {rest : List RelayJob}
    (h : ((w.procs p).dispatcher.queues q).items = job :: rest) : job ∈ w.itemsAt p q := by
  rw [World.itemsAt, Dispatcher.itemsAt, h]
  exact List.mem_cons_self

theorem World.jobAt_waiting {w : World} {p t q : Nat}
    (h : ((w.procs p).dispatcher.tasks t).state = .waiting q) : w.jobAt p t = none := by
  rw [World.jobAt, Dispatcher.jobAt, h]
  rfl

/-- A two-place function changed at one place. -/
theorem update_update_cases {β : Type} {f g : Nat → Nat → β} {p t : Nat} {x : β}
    (h : g = Function.update f p (Function.update (f p) t x)) (p' t' : Nat) :
    (p' = p ∧ t' = t ∧ g p' t' = x) ∨ (¬ (p' = p ∧ t' = t) ∧ g p' t' = f p' t') := by
  subst h
  by_cases hp : p' = p
  · subst hp
    by_cases ht : t' = t
    · subst ht
      exact .inl ⟨rfl, rfl, by simp⟩
    · refine .inr ⟨fun h => ht h.2, ?_⟩
      rw [Function.update_self, Function.update_of_ne ht]
  · refine .inr ⟨fun h => hp h.1, ?_⟩
    rw [Function.update_of_ne hp]

/-! ## The invariant -/

/-- The stage of the event of a handler in a phase. -/
def Intake.stage (i : Intake) (r : Nat) : Phase → Stage
  | .inserting | .recovering => .intake r
  | .counting => insertedStage r i.event
  | .enqueuing | .marking => .held r

/-- The stage of the event of a job at a position of a task. -/
def runningStage (p q t : Nat) (pos : Position) : Stage :=
  if pos = .returned then .settled else .running p q t

/-- Handlers, queues and tasks hold what the stages of the history say. -/
structure Owned (w : World) (os : List Obs) : Prop where
  handler : ∀ r i ph, w.handlers r = .active i ph → stage i.event.id os = i.stage r ph
  queued : ∀ p q, ∀ job ∈ w.itemsAt p q, stage job.eventId os = .queued p q
  distinct : ∀ p q, ((w.itemsAt p q).map (fun job => job.eventId)).Nodup
  running : ∀ p t q job pos, w.jobAt p t = some (q, job, pos) →
    stage job.eventId os = runningStage p q t pos
  queuedBack : ∀ id p q, stage id os = .queued p q → ∃ job ∈ w.itemsAt p q, job.eventId = id
  runningBack : ∀ id p q t, stage id os = .running p q t →
    ∃ job pos, w.jobAt p t = some (q, job, pos) ∧ job.eventId = id ∧ pos ≠ .returned
  born : ∀ id, stage id os ≠ .unborn → ∃ r i, .built r i ∈ os ∧ i.event.id = id

theorem insertedStage_cases (r : Nat) (row : Event) :
    insertedStage r row = .held r ∨ insertedStage r row = .idle := by
  unfold insertedStage
  split
  · exact .inl rfl
  · exact .inr rfl

theorem Intake.stage_cases (i : Intake) (r : Nat) (ph : Phase) :
    i.stage r ph = .intake r ∨ i.stage r ph = .held r ∨ i.stage r ph = .idle := by
  cases ph with
  | inserting | recovering => exact .inl rfl
  | enqueuing | marking => exact .inr (.inl rfl)
  | counting => exact .inr (insertedStage_cases r i.event)

theorem Intake.stage_request {i : Intake} {r r' : Nat} {ph : Phase}
    (h : i.stage r ph = .intake r' ∨ i.stage r ph = .held r') : r = r' := by
  rcases i.stage_cases r ph with hc | hc | hc <;> rw [hc] at h <;> rcases h with h | h <;> cases h <;>
    rfl

theorem runningStage_cases (p q t : Nat) (pos : Position) :
    (pos = .returned ∧ runningStage p q t pos = .settled) ∨
      (pos ≠ .returned ∧ runningStage p q t pos = .running p q t) := by
  unfold runningStage
  split
  · next h => exact .inl ⟨h, rfl⟩
  · next h => exact .inr ⟨h, rfl⟩

namespace Owned

variable {env : Env} {w w' : World} {a : Act} {o : Obs} {as : List Act} {os : List Obs} {id : String}

/-- A handler's event is at intake, held or idle. -/
theorem no_handler (ho : Owned w os) (hi : ∀ r, stage id os ≠ .intake r) (hh : ∀ r, stage id os ≠ .held r)
    (hidle : stage id os ≠ .idle) {r : Nat} {i : Intake} {ph : Phase} (h : w.handlers r = .active i ph) :
    i.event.id ≠ id := by
  intro heq
  obtain rfl := heq
  have hs := ho.handler r i ph h
  rcases i.stage_cases r ph with hc | hc | hc
  · exact hi r (hs.trans hc)
  · exact hh r (hs.trans hc)
  · exact hidle (hs.trans hc)

theorem no_item (ho : Owned w os) (hn : ∀ p q, stage id os ≠ .queued p q) {p q : Nat} {job : RelayJob}
    (h : job ∈ w.itemsAt p q) : job.eventId ≠ id := by
  intro heq
  obtain rfl := heq
  exact hn p q (ho.queued p q job h)

theorem no_job (ho : Owned w os) (hn : ∀ p q t, stage id os ≠ .running p q t)
    (hs : stage id os ≠ .settled) {p t q : Nat} {job : RelayJob} {pos : Position}
    (h : w.jobAt p t = some (q, job, pos)) : job.eventId ≠ id := by
  intro heq
  obtain rfl := heq
  have hr := ho.running p t q job pos h
  rcases runningStage_cases p q t pos with ⟨-, hc⟩ | ⟨-, hc⟩
  · exact hs (hr.trans hc)
  · exact hn p q t (hr.trans hc)

/-- A step that moves no event keeps the invariant if handlers, queues and tasks
stay where they are, up to phases of one stage. -/
theorem still (ho : Owned w os) (he : o.event = none) (hi : w'.itemsAt = w.itemsAt)
    (hj : w'.jobAt = w.jobAt)
    (hh : ∀ r i ph, w'.handlers r = .active i ph → stage i.event.id os = i.stage r ph) :
    Owned w' (os ++ [o]) := by
  have hst : ∀ id, stage id (os ++ [o]) = stage id os :=
    fun id => stage_other (by rw [he]; exact nofun)
  refine ⟨?_, ?_, ?_, ?_, ?_, ?_, ?_⟩
  · intro r i ph h
    rw [hst]
    exact hh r i ph h
  · intro p q job hjob
    rw [hi] at hjob
    rw [hst]
    exact ho.queued p q job hjob
  · intro p q
    rw [hi]
    exact ho.distinct p q
  · intro p t q job pos h
    rw [hj] at h
    rw [hst]
    exact ho.running p t q job pos h
  · intro id p q h
    rw [hst] at h
    rw [hi]
    exact ho.queuedBack id p q h
  · intro id p q t h
    rw [hst] at h
    rw [hj]
    exact ho.runningBack id p q t h
  · intro id h
    rw [hst] at h
    obtain ⟨r, i, hb, hid⟩ := ho.born id h
    exact ⟨r, i, List.mem_append_left _ hb, hid⟩

/-- A step that moves event `id` from its place to the place its new stage
says, and leaves everything else, keeps the invariant. -/
theorem move (ho : Owned w os) (he : o.event = some id)
    (hhand : ∀ r i ph, w'.handlers r = .active i ph →
      (w.handlers r = .active i ph ∧ i.event.id ≠ id) ∨
        (i.event.id = id ∧ stage id (os ++ [o]) = i.stage r ph))
    (hitems : ∀ p q job, job ∈ w'.itemsAt p q → (job ∈ w.itemsAt p q ∧ job.eventId ≠ id) ∨
      (job.eventId = id ∧ stage id (os ++ [o]) = .queued p q))
    (hdistinct : ∀ p q, ((w'.itemsAt p q).map (fun job => job.eventId)).Nodup)
    (hjobs : ∀ p t q job pos, w'.jobAt p t = some (q, job, pos) →
      (w.jobAt p t = some (q, job, pos) ∧ job.eventId ≠ id) ∨
        (job.eventId = id ∧ stage id (os ++ [o]) = runningStage p q t pos))
    (hitemsBack : ∀ p q job, job ∈ w.itemsAt p q → job.eventId ≠ id → job ∈ w'.itemsAt p q)
    (hjobsBack : ∀ p t q job pos, w.jobAt p t = some (q, job, pos) → job.eventId ≠ id →
      w'.jobAt p t = some (q, job, pos))
    (hqueued : ∀ p q, stage id (os ++ [o]) = .queued p q → ∃ job ∈ w'.itemsAt p q, job.eventId = id)
    (hrunning : ∀ p q t, stage id (os ++ [o]) = .running p q t →
      ∃ job pos, w'.jobAt p t = some (q, job, pos) ∧ job.eventId = id ∧ pos ≠ .returned)
    (hborn : ∃ r i, .built r i ∈ os ++ [o] ∧ i.event.id = id) :
    Owned w' (os ++ [o]) := by
  have hst : ∀ id', id' ≠ id → stage id' (os ++ [o]) = stage id' os := by
    intro id' hne
    apply stage_other
    rw [he]
    intro h
    exact hne (Option.some.inj h).symm
  refine ⟨?_, ?_, hdistinct, ?_, ?_, ?_, ?_⟩
  · intro r i ph h
    rcases hhand r i ph h with ⟨h, hne⟩ | ⟨rfl, h⟩
    · rw [hst _ hne]
      exact ho.handler r i ph h
    · exact h
  · intro p q job h
    rcases hitems p q job h with ⟨h, hne⟩ | ⟨rfl, h⟩
    · rw [hst _ hne]
      exact ho.queued p q job h
    · exact h
  · intro p t q job pos h
    rcases hjobs p t q job pos h with ⟨h, hne⟩ | ⟨rfl, h⟩
    · rw [hst _ hne]
      exact ho.running p t q job pos h
    · exact h
  · intro id' p q h
    by_cases hne : id' = id
    · subst hne
      exact hqueued p q h
    · rw [hst _ hne] at h
      obtain ⟨job, hjob, rfl⟩ := ho.queuedBack id' p q h
      exact ⟨job, hitemsBack p q job hjob hne, rfl⟩
  · intro id' p q t h
    by_cases hne : id' = id
    · subst hne
      exact hrunning p q t h
    · rw [hst _ hne] at h
      obtain ⟨job, pos, hjob, rfl, hpos⟩ := ho.runningBack id' p q t h
      exact ⟨job, pos, hjobsBack p t q job pos hjob hne, rfl, hpos⟩
  · intro id' h
    by_cases hne : id' = id
    · subst hne
      exact hborn
    · rw [hst _ hne] at h
      obtain ⟨r, i, hb, hid⟩ := ho.born id' h
      exact ⟨r, i, List.mem_append_left _ hb, hid⟩

/-- A step of the task that runs a job: the job stays with its task, or leaves it
settled or stranded. -/
theorem at_task {p t q : Nat} {job : RelayJob} {pos : Position} {x : Option (Nat × RelayJob × Position)}
    (ho : Owned w os) (he : o.event = some job.eventId) (hjob : w.jobAt p t = some (q, job, pos))
    (hh : w'.handlers = w.handlers) (hi : w'.itemsAt = w.itemsAt)
    (hj : w'.jobAt = Function.update w.jobAt p (Function.update (w.jobAt p) t x))
    (hx : (x = none ∧ stage job.eventId (os ++ [o]) = if pos = .returned then .settled else .stranded) ∨
      (pos ≠ .returned ∧ ∃ pos', x = some (q, job, pos') ∧
        stage job.eventId (os ++ [o]) = runningStage p q t pos')) :
    Owned w' (os ++ [o]) := by
  have hold := ho.running p t q job pos hjob
  -- either way no handler and no queue has the event
  have hset : stage job.eventId os = .settled ∨ stage job.eventId os = .running p q t := by
    rcases runningStage_cases p q t pos with ⟨-, h⟩ | ⟨-, h⟩
    · exact .inl (hold.trans h)
    · exact .inr (hold.trans h)
  have hnothandler : ∀ r i ph, w.handlers r = .active i ph → i.event.id ≠ job.eventId := by
    intro r i ph
    rcases hset with h | h <;> exact ho.no_handler (by simp [h]) (by simp [h]) (by simp [h])
  have hnotitem : ∀ p' q', ∀ job' ∈ w.itemsAt p' q', job'.eventId ≠ job.eventId := by
    intro p' q' job'
    rcases hset with h | h <;> exact ho.no_item (by simp [h])
  -- another task with a job of this event has recorded its outcome
  have hother : ∀ p' t' q' job' pos', ¬ (p' = p ∧ t' = t) → w.jobAt p' t' = some (q', job', pos') →
      job'.eventId = job.eventId → pos' = .returned ∧ pos = .returned := by
    intro p' t' q' job' pos' hne h' hid
    have h'' := ho.running p' t' q' job' pos' h'
    rw [hid, hold] at h''
    rcases runningStage_cases p q t pos with ⟨hp, hc⟩ | ⟨-, hc⟩ <;>
      rcases runningStage_cases p' q' t' pos' with ⟨hp', hc'⟩ | ⟨-, hc'⟩ <;> rw [hc, hc'] at h''
    · exact ⟨hp', hp⟩
    · cases h''
    · cases h''
    · cases h''
      exact absurd ⟨rfl, rfl⟩ hne
  have hmoved := update_update_cases hj
  have hborn : ∃ r i, .built r i ∈ os ++ [o] ∧ i.event.id = job.eventId := by
    obtain ⟨r, i, hb, hid⟩ := ho.born job.eventId (by rcases hset with h | h <;> simp [h])
    exact ⟨r, i, List.mem_append_left _ hb, hid⟩
  refine ho.move he ?_ ?_ ?_ ?_ ?_ ?_ ?_ ?_ hborn
  · intro r i ph h
    rw [hh] at h
    exact .inl ⟨h, hnothandler r i ph h⟩
  · intro p' q' job' h
    rw [hi] at h
    exact .inl ⟨h, hnotitem p' q' job' h⟩
  · intro p' q'
    rw [hi]
    exact ho.distinct p' q'
  · intro p' t' q' job' pos' h
    rcases hmoved p' t' with ⟨rfl, rfl, hu⟩ | ⟨hne, hu⟩
    · rw [hu] at h
      rcases hx with ⟨rfl, -⟩ | ⟨-, pos₁, rfl, hst⟩
      · cases h
      · cases h
        exact .inr ⟨rfl, hst⟩
    · rw [hu] at h
      by_cases hid : job'.eventId = job.eventId
      · obtain ⟨rfl, rfl⟩ := hother p' t' q' job' pos' hne h hid
        refine .inr ⟨hid, ?_⟩
        rcases hx with ⟨-, hst⟩ | ⟨hpos, -⟩
        · exact hst
        · exact absurd rfl hpos
      · exact .inl ⟨h, hid⟩
  · intro p' q' job' h _
    rw [hi]
    exact h
  · intro p' t' q' job' pos' h hne
    rcases hmoved p' t' with ⟨rfl, rfl, -⟩ | ⟨-, hu⟩
    · rw [hjob] at h
      cases h
      exact absurd rfl hne
    · rw [hu]
      exact h
  · intro p' q' h
    rcases hx with ⟨-, hst⟩ | ⟨-, pos', -, hst⟩
    · rw [hst] at h
      split at h <;> cases h
    · rcases runningStage_cases p q t pos' with ⟨-, hc⟩ | ⟨-, hc⟩ <;> rw [hst, hc] at h <;> cases h
  · intro p' q' t' h
    rcases hx with ⟨-, hst⟩ | ⟨-, pos', rfl, hst⟩
    · rw [hst] at h
      split at h <;> cases h
    · rcases runningStage_cases p q t pos' with ⟨-, hc⟩ | ⟨hpos', hc⟩ <;> rw [hst, hc] at h <;> cases h
      rcases hmoved p t with ⟨-, -, hu⟩ | ⟨hne, -⟩
      · exact ⟨job, pos', hu, rfl, hpos'⟩
      · exact absurd ⟨rfl, rfl⟩ hne

/-- `move` for a step that leaves queues and tasks alone, of an event that none of
them has. -/
theorem move_handlers (ho : Owned w os) (he : o.event = some id)
    (hhand : ∀ r i ph, w'.handlers r = .active i ph →
      (w.handlers r = .active i ph ∧ i.event.id ≠ id) ∨
        (i.event.id = id ∧ stage id (os ++ [o]) = i.stage r ph))
    (hi : w'.itemsAt = w.itemsAt) (hj : w'.jobAt = w.jobAt)
    (hnotitem : ∀ p q, ∀ job ∈ w.itemsAt p q, job.eventId ≠ id)
    (hnotjob : ∀ p t q job pos, w.jobAt p t = some (q, job, pos) → job.eventId ≠ id)
    (hq : ∀ p q, stage id (os ++ [o]) ≠ .queued p q)
    (hrun : ∀ p q t, stage id (os ++ [o]) ≠ .running p q t)
    (hborn : ∃ r i, .built r i ∈ os ++ [o] ∧ i.event.id = id) : Owned w' (os ++ [o]) := by
  refine ho.move he hhand ?_ ?_ ?_ ?_ ?_ (fun p q h => absurd h (hq p q))
    (fun p q t h => absurd h (hrun p q t)) hborn
  · intro p q job h
    rw [hi] at h
    exact .inl ⟨h, hnotitem p q job h⟩
  · intro p q
    rw [hi]
    exact ho.distinct p q
  · intro p t q job pos h
    rw [hj] at h
    exact .inl ⟨h, hnotjob p t q job pos h⟩
  · intro p q job h _
    rw [hi]
    exact h
  · intro p t q job pos h _
    rw [hj]
    exact h

/-- A step of the handler that holds an event: the event leaves it settled,
stranded or idle, or stays with it. -/
theorem at_handler {r : Nat} {i : Intake} {ph : Phase} {h : Handler} (ho : Owned w os)
    (he : o.event = some i.event.id) (hhand : w.handlers r = .active i ph)
    (hheld : i.stage r ph = .intake r ∨ i.stage r ph = .held r)
    (hh : w'.handlers = Function.update w.handlers r h) (hi : w'.itemsAt = w.itemsAt)
    (hj : w'.jobAt = w.jobAt)
    (hnew : ∀ i' ph', h = .active i' ph' →
      i'.event.id = i.event.id ∧ stage i.event.id (os ++ [o]) = i'.stage r ph')
    (hq : ∀ p q, stage i.event.id (os ++ [o]) ≠ .queued p q)
    (hrun : ∀ p q t, stage i.event.id (os ++ [o]) ≠ .running p q t) : Owned w' (os ++ [o]) := by
  have hold := ho.handler r i ph hhand
  have hst : stage i.event.id os = .intake r ∨ stage i.event.id os = .held r := by
    rw [hold]
    exact hheld
  have hnotitem : ∀ p q, ∀ job ∈ w.itemsAt p q, job.eventId ≠ i.event.id := by
    intro p q job
    rcases hst with hs | hs <;> exact ho.no_item (by simp [hs])
  have hnotjob : ∀ p t q job pos, w.jobAt p t = some (q, job, pos) → job.eventId ≠ i.event.id := by
    intro p t q job pos
    rcases hst with hs | hs <;> exact ho.no_job (by simp [hs]) (by simp [hs])
  have hborn : ∃ r₀ i₀, .built r₀ i₀ ∈ os ++ [o] ∧ i₀.event.id = i.event.id := by
    obtain ⟨r₀, i₀, hb, hid⟩ := ho.born i.event.id (by rcases hst with hs | hs <;> simp [hs])
    exact ⟨r₀, i₀, List.mem_append_left _ hb, hid⟩
  refine ho.move_handlers he ?_ hi hj hnotitem hnotjob hq hrun hborn
  intro r' i' ph' h'
  rw [hh] at h'
  by_cases hr : r' = r
  · subst hr
    rw [Function.update_self] at h'
    exact .inr (hnew i' ph' h')
  · rw [Function.update_of_ne hr] at h'
    refine .inl ⟨h', ?_⟩
    -- two handlers of one event would both have its stage
    intro hid
    have h'' := ho.handler r' i' ph' h'
    rw [hid] at h''
    rw [h''] at hst
    exact hr (Intake.stage_request hst)

/-- An event that no request has built is unborn. -/
theorem unborn (ho : Owned w os) (hnew : ∀ r i, .built r i ∈ os → i.event.id ≠ id) :
    stage id os = .unborn := by
  by_contra hborn
  obtain ⟨r, i, hb, hid⟩ := ho.born id hborn
  exact hnew r i hb hid

/-- A request builds an event that no other party has. -/
theorem built {r : Nat} {i : Intake} (ho : Owned w os) (hnew : ∀ r' i', .built r' i' ∈ os → i'.event.id ≠ i.event.id)
    (hh : w'.handlers = Function.update w.handlers r (.active i .inserting))
    (hi : w'.itemsAt = w.itemsAt) (hj : w'.jobAt = w.jobAt) : Owned w' (os ++ [.built r i]) := by
  have hst := ho.unborn hnew
  have hafter : stage i.event.id (os ++ [.built r i]) = .intake r := by
    rw [stage_snoc]
    exact if_pos rfl
  refine ho.move_handlers rfl ?_ hi hj (fun p q job => ho.no_item (by simp [hst]))
    (fun p t q job pos => ho.no_job (by simp [hst]) (by simp [hst])) (by simp [hafter]) (by simp [hafter])
    ⟨r, i, by simp, rfl⟩
  intro r' i' ph' h'
  rw [hh] at h'
  by_cases hr : r' = r
  · subst hr
    rw [Function.update_self] at h'
    cases h'
    exact .inr ⟨rfl, hafter⟩
  · rw [Function.update_of_ne hr] at h'
    exact .inl ⟨h', ho.no_handler (by simp [hst]) (by simp [hst]) (by simp [hst]) h'⟩

/-- The dispatcher accepts the job of a held event. -/
theorem enqueued {r p q : Nat} {i : Intake} {job : RelayJob} {resp : CreateWebhookResponse}
    (ho : Owned w os) (hhand : w.handlers r = .active i .enqueuing) (hid : job.eventId = i.event.id)
    (hh : w'.handlers = Function.update w.handlers r (.answered i resp))
    (hi : w'.itemsAt = Function.update w.itemsAt p
      (Function.update (w.itemsAt p) q (w.itemsAt p q ++ [job])))
    (hj : w'.jobAt = w.jobAt) : Owned w' (os ++ [.enqueued r p q job]) := by
  have hst : stage job.eventId os = .held r := by
    rw [hid]
    exact ho.handler r i .enqueuing hhand
  have hafter : stage job.eventId (os ++ [.enqueued r p q job]) = .queued p q := by
    rw [stage_snoc]
    exact if_pos rfl
  -- while a handler holds the event no job of it waits anywhere
  have hnotitem : ∀ p' q', ∀ job' ∈ w.itemsAt p' q', job'.eventId ≠ job.eventId :=
    fun p' q' job' => ho.no_item (by simp [hst])
  have hmoved := update_update_cases hi
  obtain ⟨r₀, i₀, hb, hid₀⟩ := ho.born job.eventId (by simp [hst])
  refine ho.move rfl ?_ ?_ ?_ ?_ ?_ ?_ ?_ ?_ ⟨r₀, i₀, List.mem_append_left _ hb, hid₀⟩
  · intro r' i' ph' h'
    rw [hh] at h'
    by_cases hr : r' = r
    · subst hr
      rw [Function.update_self] at h'
      cases h'
    · rw [Function.update_of_ne hr] at h'
      refine .inl ⟨h', ?_⟩
      intro he
      have h'' := ho.handler r' i' ph' h'
      rw [he, hst] at h''
      exact hr (Intake.stage_request (.inr h''.symm))
  · intro p' q' job' h
    rcases hmoved p' q' with ⟨rfl, rfl, hu⟩ | ⟨-, hu⟩
    · rw [hu] at h
      rcases List.mem_append.mp h with h | h
      · exact .inl ⟨h, hnotitem p' q' job' h⟩
      · cases List.mem_singleton.mp h
        exact .inr ⟨rfl, hafter⟩
    · rw [hu] at h
      exact .inl ⟨h, hnotitem p' q' job' h⟩
  · intro p' q'
    rcases hmoved p' q' with ⟨rfl, rfl, hu⟩ | ⟨-, hu⟩
    · rw [hu, List.map_append, List.map_singleton, ← List.concat_eq_append, List.nodup_concat]
      refine ⟨?_, ho.distinct p' q'⟩
      intro hmem
      obtain ⟨job', hjob', he⟩ := List.mem_map.mp hmem
      exact hnotitem p' q' job' hjob' he
    · rw [hu]
      exact ho.distinct p' q'
  · intro p' t' q' job' pos' h
    rw [hj] at h
    exact .inl ⟨h, ho.no_job (by simp [hst]) (by simp [hst]) h⟩
  · intro p' q' job' h _
    rcases hmoved p' q' with ⟨rfl, rfl, hu⟩ | ⟨-, hu⟩
    · rw [hu]
      exact List.mem_append_left _ h
    · rw [hu]
      exact h
  · intro p' t' q' job' pos' h _
    rw [hj]
    exact h
  · intro p' q' h
    rw [hafter] at h
    cases h
    rcases hmoved p q with ⟨-, -, hu⟩ | ⟨hne, -⟩
    · exact ⟨job, by rw [hu]; simp, rfl⟩
    · exact absurd ⟨rfl, rfl⟩ hne
  · intro p' q' t' h
    rw [hafter] at h
    cases h

/-- A worker takes the first job of its queue. -/
theorem taken {p t q : Nat} {job : RelayJob} {rest : List RelayJob} (ho : Owned w os)
    (hitem : w.itemsAt p q = job :: rest) (hfree : w.jobAt p t = none)
    (hh : w'.handlers = w.handlers)
    (hi : w'.itemsAt = Function.update w.itemsAt p (Function.update (w.itemsAt p) q rest))
    (hj : w'.jobAt = Function.update w.jobAt p
      (Function.update (w.jobAt p) t (some (q, job, .start)))) :
    Owned w' (os ++ [.job p t job.eventId .taken]) := by
  have hst : stage job.eventId os = .queued p q :=
    ho.queued p q job (by rw [hitem]; exact List.mem_cons_self)
  have hafter : stage job.eventId (os ++ [.job p t job.eventId .taken]) = .running p q t := by
    rw [stage_snoc, hst]
    exact if_pos rfl
  have hmoved := update_update_cases hi
  have hmovedJob := update_update_cases hj
  -- the other jobs of the queue belong to other events
  have hrest : ∀ job' ∈ rest, job'.eventId ≠ job.eventId := by
    intro job' hjob' he
    have hnodup := ho.distinct p q
    rw [hitem, List.map_cons, List.nodup_cons] at hnodup
    exact hnodup.1 (List.mem_map.mpr ⟨job', hjob', he⟩)
  obtain ⟨r₀, i₀, hb, hid₀⟩ := ho.born job.eventId (by simp [hst])
  refine ho.move rfl ?_ ?_ ?_ ?_ ?_ ?_ ?_ ?_ ⟨r₀, i₀, List.mem_append_left _ hb, hid₀⟩
  · intro r i ph h
    rw [hh] at h
    exact .inl ⟨h, ho.no_handler (by simp [hst]) (by simp [hst]) (by simp [hst]) h⟩
  · intro p' q' job' h
    rcases hmoved p' q' with ⟨rfl, rfl, hu⟩ | ⟨hne, hu⟩
    · rw [hu] at h
      exact .inl ⟨by rw [hitem]; exact List.mem_cons_of_mem _ h, hrest job' h⟩
    · rw [hu] at h
      refine .inl ⟨h, ?_⟩
      intro he
      have hq := ho.queued p' q' job' h
      rw [he, hst] at hq
      cases hq
      exact hne ⟨rfl, rfl⟩
  · intro p' q'
    rcases hmoved p' q' with ⟨rfl, rfl, hu⟩ | ⟨-, hu⟩
    · rw [hu]
      have hnodup := ho.distinct p' q'
      rw [hitem, List.map_cons, List.nodup_cons] at hnodup
      exact hnodup.2
    · rw [hu]
      exact ho.distinct p' q'
  · intro p' t' q' job' pos' h
    rcases hmovedJob p' t' with ⟨rfl, rfl, hu⟩ | ⟨-, hu⟩
    · rw [hu] at h
      cases h
      exact .inr ⟨rfl, hafter⟩
    · rw [hu] at h
      exact .inl ⟨h, ho.no_job (by simp [hst]) (by simp [hst]) h⟩
  · intro p' q' job' h hne
    rcases hmoved p' q' with ⟨rfl, rfl, hu⟩ | ⟨-, hu⟩
    · rw [hu]
      rw [hitem] at h
      rcases List.mem_cons.mp h with rfl | h
      · exact absurd rfl hne
      · exact h
    · rw [hu]
      exact h
  · intro p' t' q' job' pos' h _
    rcases hmovedJob p' t' with ⟨rfl, rfl, -⟩ | ⟨-, hu⟩
    · rw [hfree] at h
      cases h
    · rw [hu]
      exact h
  · intro p' q' h
    rw [hafter] at h
    cases h
  · intro p' q' t' h
    rw [hafter] at h
    cases h
    rcases hmovedJob p t with ⟨-, -, hu⟩ | ⟨hne, -⟩
    · exact ⟨job, .start, hu, rfl, by decide⟩
    · exact absurd ⟨rfl, rfl⟩ hne

/-- The handlers after one of them has moved without moving an event. -/
theorem handler_update {r : Nat} {h : Handler} (ho : Owned w os)
    (hnew : ∀ i ph, h = .active i ph → stage i.event.id os = i.stage r ph) :
    ∀ r' i ph, Function.update w.handlers r h r' = .active i ph →
      stage i.event.id os = i.stage r' ph := by
  intro r' i ph h'
  by_cases hr : r' = r
  · subst hr
    rw [Function.update_self] at h'
    exact hnew i ph h'
  · rw [Function.update_of_ne hr] at h'
    exact ho.handler r' i ph h'

end Owned

/-! ## The invariant in every run -/

/-- An intake with a target and a free queue scheduled its event. -/
theorem Intake.FromRequest.scheduled {env : Env} {i : Intake} (h : i.FromRequest env)
    (ht : (env.settings i.pid).targetUrl ≠ "") (hq : i.queuePreFull = false) :
    i.event.toRelayColumns = scheduledRelay := by
  obtain ⟨p, capacity, req, draws, hb⟩ := h
  obtain ⟨payload, -, rfl, -, ⟨ht', -, -⟩ | ⟨-, -, hr, -⟩ | ⟨-, -, -, hq'⟩⟩ := buildEvent_ok hb
  · exact absurd ht' ht
  · exact hr
  · rw [hq] at hq'
    cases hq'

/-- A step of a job that records nothing keeps the job unfinished, and its event
where it is. -/
theorem Turn.stays {env : Env} {client : Bool} {job : RelayJob} {pos pos' : Position} {input : Input}
    {eff : Effect} (h : Turn env client job pos input pos' eff) (hr : ∀ out, eff ≠ .recorded out) :
    pos ≠ .returned ∧ pos' ≠ .returned ∧ ∀ (st : Stage) p t, st.job p t eff = st := by
  have hafter : ∀ ips, afterResolution env client job ips ≠ .returned := by
    intro ips
    rcases afterResolution_cases env client job ips with ⟨_, -, h⟩ | ⟨_, -, h⟩ | ⟨-, _, h⟩ | ⟨-, h⟩ <;>
      rw [h] <;> exact Position.noConfusion
  have hpost : ∀ n vars res, afterPost n vars res ≠ .returned := by
    intro n vars res
    rcases afterPost_cases n vars res with ⟨_, -, h⟩ | ⟨-, -, _, h⟩ | ⟨_, -, h⟩ <;> rw [h] <;>
      exact Position.noConfusion
  cases h with
  | unparsed _ | skipped _ | named _ _ | gaierror | unresolved | posted _ =>
    exact ⟨Position.noConfusion, Position.noConfusion, fun _ _ _ => rfl⟩
  | literal _ _ => exact ⟨Position.noConfusion, hafter _, fun _ _ _ => rfl⟩
  | resolved => exact ⟨Position.noConfusion, hafter _, fun _ _ _ => rfl⟩
  | answered => exact ⟨Position.noConfusion, hpost _ _ _, fun _ _ _ => rfl⟩
  | recorded => exact absurd rfl (hr _)

section

variable {env : Env} {w w' : World} {a : Act} {o : Obs} {as : List Act} {os : List Obs}

theorem World.views_setDispatcher {w : World} {p : Nat} {d : Dispatcher RelayJob Position}
    (hi : d.itemsAt = w.itemsAt p) (hj : d.jobAt = w.jobAt p) :
    (w.setDispatcher p d).itemsAt = w.itemsAt ∧ (w.setDispatcher p d).jobAt = w.jobAt :=
  World.views_setProc hi hj

/-- Replacing the dispatcher of a process by one with another job at a task. -/
theorem World.views_at_task (w : World) {p t : Nat} {d : Dispatcher RelayJob Position}
    {x : Option (Nat × RelayJob × Position)} (hi : d.itemsAt = w.itemsAt p)
    (hj : d.jobAt = Function.update (w.jobAt p) t x) :
    (w.setDispatcher p d).itemsAt = w.itemsAt ∧
      (w.setDispatcher p d).jobAt = Function.update w.jobAt p (Function.update (w.jobAt p) t x) := by
  rw [World.setDispatcher, World.itemsAt_setProc, World.jobAt_setProc, hi, hj]
  exact ⟨Function.update_eq_self .., rfl⟩

/-- The end of a job strands its event, unless the outcome is recorded. -/
theorem job_ended {eff : Effect} {st : Stage} {p q t : Nat} {pos : Position}
    (he : eff = .finished ∨ eff = .dropped) (hst : st = runningStage p q t pos) :
    st.job p t eff = if pos = .returned then .settled else .stranded := by
  rw [hst]
  rcases runningStage_cases p q t pos with ⟨hpos, hc⟩ | ⟨hpos, hc⟩
  · rw [hc, if_pos hpos]
    rcases he with rfl | rfl <;> rfl
  · rw [hc, if_neg hpos]
    rcases he with rfl | rfl <;> rfl

/-- What the end of a job does to the stage is a move of a relay. -/
theorem job_leaves {eff : Effect} {st : Stage} {p q t : Nat} {pos : Position}
    (he : eff = .finished ∨ eff = .dropped) (hst : st = runningStage p q t pos) :
    st.job p t eff = st ∨ Stage.Next st (st.job p t eff) := by
  rw [job_ended he hst]
  rcases runningStage_cases p q t pos with ⟨hpos, hc⟩ | ⟨hpos, hc⟩
  · rw [if_pos hpos, hst, hc]
    exact .inl rfl
  · rw [if_neg hpos, hst, hc]
    exact .inr .strand

/-- Each step keeps handlers, queues and tasks in agreement with the stages. -/
theorem owned_step (ho : Owned w os) (hw : ∀ p, (w.procs p).dispatcher.WF)
    (hf : World.Fresh env w os) (hshape : ∀ r, Shape env r (w.handlers r) (trail r os))
    (hm : Move env w a w' o) : Owned w' (os ++ [o]) := by
  cases hm with
  | @started p _ =>
    obtain ⟨hi, hj⟩ := World.views_setProc (w := w) (p := p) (P := { w.procs p with
        client := true
        dispatcher := (w.procs p).dispatcher.startup (env.settings p).relayWorkerConcurrency
          (env.settings p).relayQueueSize })
      (Dispatcher.itemsAt_startup (hw p) _ _) (Dispatcher.jobAt_startup (hw p) _ _)
    exact ho.still rfl hi hj ho.handler
  | @stopped p _ _ _ =>
    obtain ⟨hi, hj⟩ := World.views_setDispatcher (w := w) (p := p)
      (d := (w.procs p).dispatcher.shutdown) rfl (Dispatcher.jobAt_shutdown _)
    exact ho.still rfl hi hj ho.handler
  | @closed p _ _ =>
    obtain ⟨hi, hj⟩ := World.views_setProc (w := w) (p := p) (P := { w.procs p with client := false })
      rfl rfl
    exact ho.still rfl hi hj ho.handler
  | rejected _ => exact ho.still rfl rfl rfl (ho.handler_update (by intro i ph h; cases h))
  | @built p r req draws i _ hfresh hb =>
    exact ho.built (fun r' i' hb' => hf.built_ne hfresh hb hb') rfl rfl rfl
  | @inserted r i s hh _ =>
    have hold := ho.handler r i .inserting hh
    have hafter : stage i.event.id (os ++ [.inserted r (i.row env)]) = insertedStage r i.event := by
      rw [stage_snoc]
      exact if_pos rfl
    refine ho.at_handler rfl hh (.inl rfl) rfl rfl rfl ?_ ?_ ?_
    · intro i' ph' h
      cases h
      exact ⟨rfl, hafter⟩
    · intro p q h
      rcases insertedStage_cases r i.event with hc | hc <;> rw [hafter, hc] at h <;> cases h
    · intro p q t h
      rcases insertedStage_cases r i.event with hc | hc <;> rw [hafter, hc] at h <;> cases h
  | @conflict r i hh _ _ =>
    refine ho.still rfl rfl rfl (ho.handler_update ?_)
    intro i' ph' h
    cases h
    exact ho.handler r i .inserting hh
  | lostInsert _ _ _ | lostLookup _ _ | replayed _ _ =>
    exact ho.still rfl rfl rfl (ho.handler_update (by intro i ph h; cases h))
  | @countedRelay r i hh ht hq =>
    obtain ⟨hi, hj⟩ := World.views_setProc (w := w) (p := i.pid)
      (P := (w.procs i.pid).receive i.event.source) rfl rfl
    refine ho.still rfl hi hj (ho.handler_update ?_)
    intro i' ph' h
    cases h
    -- the row was inserted as scheduled, so the INSERT left the event held
    have hbuilt : .built r i ∈ os := (mem_trail.mp (hh ▸ hshape r).active.1).1
    have hrow := (hf.fromRequest r i hbuilt).scheduled ht hq
    apply (ho.handler r i .counting hh).trans
    exact if_pos (congrArg RelayColumns.relayStatus hrow)
  | @countedOnly r i _ _ =>
    obtain ⟨hi, hj⟩ := World.views_setProc (w := w) (p := i.pid)
      (P := (w.procs i.pid).receive i.event.source) rfl rfl
    exact ho.still rfl hi hj (ho.handler_update (by intro i ph h; cases h))
  | @enqueued r q i d hh _ hd =>
    refine ho.enqueued hh rfl rfl ?_ ?_
    · subst hd
      apply (World.itemsAt_setProc w i.pid _).trans
      exact congrArg _ (Dispatcher.itemsAt_setQueue ..)
    · subst hd
      exact (World.jobAt_setProc w i.pid _).trans (Function.update_eq_self ..)
  | @refused r i hh =>
    refine ho.still rfl rfl rfl (ho.handler_update ?_)
    intro i' ph' h
    cases h
    exact ho.handler r i .enqueuing hh
  | @uninitialised r i exc hh _ =>
    have hafter : stage i.event.id (os ++ [.uninitialised r i.event.id]) = .stranded := by
      rw [stage_snoc]
      exact if_pos rfl
    exact ho.at_handler rfl hh (.inr rfl) rfl rfl rfl (by intro i ph h; cases h) (by simp [hafter])
      (by simp [hafter])
  | @marked r i hh =>
    have hafter : stage i.event.id (os ++ [.marked r i.event.id]) = .settled := by
      rw [stage_snoc]
      exact if_pos rfl
    exact ho.at_handler rfl hh (.inr rfl) rfl rfl rfl (by intro i ph h; cases h) (by simp [hafter])
      (by simp [hafter])
  | @began p t q hs _ _ =>
    obtain ⟨hi, hj⟩ := World.views_setDispatcher (w := w) (p := p)
      (d := (w.procs p).dispatcher.setState t (.waiting q)) rfl
      (by rw [Dispatcher.jobAt_setState]; exact Dispatcher.update_jobAt_idle (.inl hs) rfl)
    exact ho.still rfl hi hj ho.handler
  | @beganLate p t hs _ _ =>
    obtain ⟨hi, hj⟩ := World.views_setDispatcher (w := w) (p := p)
      (d := (w.procs p).dispatcher.setState t .ended) rfl
      (by rw [Dispatcher.jobAt_setState]; exact Dispatcher.update_jobAt_idle (.inl hs) rfl)
    exact ho.still rfl hi hj ho.handler
  | @taken p t q job rest hs _ hitems =>
    have hitem : w.itemsAt p q = job :: rest := hitems
    refine ho.taken hitem (World.jobAt_waiting hs) rfl ?_ ?_
    · apply (World.itemsAt_setProc w p _).trans
      exact congrArg _ (Dispatcher.itemsAt_setQueue (w.procs p).dispatcher q _)
    · apply (World.jobAt_setProc w p _).trans
      exact congrArg _ (Dispatcher.jobAt_setState ..)
  | @worked p t q job pos pos' input eff hs _ ha hr =>
    obtain ⟨hpos, hpos', hst⟩ := (Turn.of_advance ha).stays hr
    have hjob := Dispatcher.jobAt_eq_some.mpr hs
    have hi : (w.setProc p ({ w.procs p with
        dispatcher := (w.procs p).dispatcher.setState t (.running q job pos') }.count eff)).itemsAt =
          w.itemsAt := by
      rw [World.itemsAt_setProc, Proc.count_dispatcher]
      exact Function.update_eq_self ..
    have hj : (w.setProc p ({ w.procs p with
        dispatcher := (w.procs p).dispatcher.setState t (.running q job pos') }.count eff)).jobAt =
          Function.update w.jobAt p (Function.update (w.jobAt p) t (some (q, job, pos'))) := by
      rw [World.jobAt_setProc, Proc.count_dispatcher]
      exact congrArg _ (Dispatcher.jobAt_setState ..)
    refine ho.at_task rfl hjob rfl hi hj (.inr ⟨hpos, pos', rfl, ?_⟩)
    rw [stage_snoc, ho.running p t q job pos hjob]
    apply (if_pos rfl).trans
    rw [hst, runningStage, if_neg hpos, runningStage, if_neg hpos']
  | @recorded p t q job out hs _ =>
    have hjob := Dispatcher.jobAt_eq_some.mpr hs
    obtain ⟨hi, hj⟩ := w.views_at_task (p := p) (t := t)
      (d := (w.procs p).dispatcher.setState t (.running q job .returned)) rfl
      (Dispatcher.jobAt_setState ..)
    refine ho.at_task rfl hjob rfl hi hj (.inr ⟨Position.noConfusion, .returned, rfl, ?_⟩)
    rw [stage_snoc]
    exact if_pos rfl
  | @finished p t q job pos e d hs _ he hd =>
    have hjob := Dispatcher.jobAt_eq_some.mpr hs
    obtain ⟨hitems, hjobs⟩ := Dispatcher.jobDone_views hd
    obtain ⟨hi, hj⟩ := w.views_at_task hitems hjobs
    refine ho.at_task rfl hjob rfl hi hj (.inl ⟨rfl, ?_⟩)
    rw [stage_snoc]
    apply (if_pos rfl).trans
    exact job_ended (.inl rfl) (ho.running p t q job pos hjob)
  | @dropped p t q job pos d hs _ hd =>
    have hjob := Dispatcher.jobAt_eq_some.mpr hs
    obtain ⟨hitems, hjobs⟩ := Dispatcher.jobDone_views hd
    obtain ⟨hi, hj⟩ := w.views_at_task hitems hjobs
    refine ho.at_task rfl hjob rfl hi hj (.inl ⟨rfl, ?_⟩)
    rw [stage_snoc]
    apply (if_pos rfl).trans
    exact job_ended (.inr rfl) (ho.running p t q job pos hjob)
  | @idled p t hs _ =>
    obtain ⟨hi, hj⟩ := World.views_setDispatcher (w := w) (p := p)
      (d := (w.procs p).dispatcher.setState t .ended) rfl
      (by rw [Dispatcher.jobAt_setState]; exact Dispatcher.update_jobAt_idle hs rfl)
    exact ho.still rfl hi hj ho.handler
  | deleted => exact ho.still rfl rfl rfl ho.handler

/-- In every run, handlers, queues and workers hold exactly the relays that the
history says they hold. -/
theorem owned_run (h : Run (step env) World.initial as os w) : Owned w os := by
  induction h with
  | nil =>
    refine ⟨?_, ?_, ?_, ?_, ?_, ?_, ?_⟩
    · intro r i ph h
      cases h
    · intro p q job h
      cases h
    · intro p q
      exact List.nodup_nil
    · intro p t q job pos h
      cases h
    · intro id p q h
      cases h
    · intro id p q t h
      cases h
    · intro id h
      exact absurd rfl h
  | snoc hrun hs ih =>
    exact owned_step ih (workers_run hrun) (fresh_run hrun) (shape_run hrun) (Move.of_step hs)

/-- A step leaves the stage of each event, or moves it along `Stage.Next`. -/
theorem stage_step (ho : Owned w os) (hf : World.Fresh env w os) (hm : Move env w a w' o)
    (id : String) :
    stage id (os ++ [o]) = stage id os ∨ Stage.Next (stage id os) (stage id (os ++ [o])) := by
  -- ownership tells the stage the event is in before the step
  by_cases he : o.event = some id
  swap
  · exact .inl (stage_other he)
  rw [stage_snoc]
  cases hm with
  | started _ | stopped _ _ | closed _ _ | rejected _ | conflict _ _ _ | lostInsert _ _ _ | replayed _ _
  | lostLookup _ _ | countedRelay _ _ _ | countedOnly _ _ | refused _ | began _ _ _ | beganLate _ _ _
  | idled _ _ | deleted => cases he
  | @built p r req draws i _ hfresh hb =>
    cases he
    rw [ho.unborn (fun r' i' hb' => hf.built_ne hfresh hb hb'), Stage.after, if_pos rfl]
    exact .inr .build
  | @inserted r i s hh _ =>
    cases he
    have hst : stage (i.row env).id os = .intake r := ho.handler r i .inserting hh
    rw [hst, Stage.after, if_pos rfl]
    rcases insertedStage_cases r (i.row env) with hc | hc <;> rw [hc]
    · exact .inr .insertScheduled
    · exact .inr .insertPlain
  | @enqueued r q i d hh _ _ =>
    cases he
    have hst : stage (relayJob (env.settings i.pid) i.event).eventId os = .held r :=
      ho.handler r i .enqueuing hh
    rw [hst, Stage.after, if_pos rfl]
    exact .inr .enqueue
  | @uninitialised r i exc hh _ =>
    cases he
    have hst : stage i.event.id os = .held r := ho.handler r i .enqueuing hh
    rw [hst, Stage.after, if_pos rfl]
    exact .inr .lose
  | @marked r i hh =>
    cases he
    have hst : stage i.event.id os = .held r := ho.handler r i .marking hh
    rw [hst, Stage.after, if_pos rfl]
    exact .inr .mark
  | @taken p t q job rest _ _ hitems =>
    cases he
    rw [ho.queued p q job (World.mem_itemsAt hitems), Stage.after, if_pos rfl]
    exact .inr .take
  | @worked p t q job pos pos' input eff hs _ ha hr =>
    cases he
    rw [Stage.after, if_pos rfl]
    exact .inl (((Turn.of_advance ha).stays hr).2.2 ..)
  | @recorded p t q job out hs _ =>
    cases he
    have hst := ho.running p t q job _ (Dispatcher.jobAt_eq_some.mpr hs)
    rw [runningStage, if_neg Position.noConfusion] at hst
    rw [hst, Stage.after, if_pos rfl]
    exact .inr .record
  | @finished p t q job pos e d hs _ _ hd =>
    cases he
    have hst := ho.running p t q job pos (Dispatcher.jobAt_eq_some.mpr hs)
    rw [Stage.after, if_pos rfl]
    exact job_leaves (.inl rfl) hst
  | @dropped p t q job pos d hs _ hd =>
    cases he
    have hst := ho.running p t q job pos (Dispatcher.jobAt_eq_some.mpr hs)
    rw [Stage.after, if_pos rfl]
    exact job_leaves (.inr rfl) hst

/-- In every run each relay lives the life of a token. -/
theorem stage_moves (h : Run (step env) World.initial as os w) (hs : step env w a = some (w', o))
    (id : String) :
    stage id (os ++ [o]) = stage id os ∨ Stage.Next (stage id os) (stage id (os ++ [o])) :=
  stage_step (owned_run h) (fresh_run h) (Move.of_step hs) id

end

end WebhookRelay
