import WebhookRelay.Dispatcher
import WebhookRelay.Routes
import WebhookRelay.Serialization

/-
  The running service: any number of processes, each with its HTTP client, its
  dispatcher and its counters, over one events table, and any number of
  requests. A step of `World` is one transaction of a request handler, one
  operation on a dispatcher, the code of a relay job between two suspension
  points, a cleanup transaction, or a part of a process's lifespan; steps of
  different parties come in any order.

  Every step yields one observation (`Obs`). The clock, the uuids, the answers
  of resolver and peers, and the choice of the next step are the action's.
  `Move` says once what each step can do; the invariants are proved from it.
-/
namespace WebhookRelay

open Py Transition

/-! ## State -/

structure Proc where
  dispatcher : Dispatcher RelayJob Position := {}
  client : Bool := false
  eventsReceivedTotal : String → Nat := fun _ => 0
  relayAttemptsTotal : Nat := 0
  relaySuccessesTotal : Nat := 0
  relayLatencyCount : Nat := 0

/-- Where `create_event` stands: before the INSERT, before the lookup, before
the counter, before the offer to the dispatcher, before the queue-full update. -/
inductive Phase where
  | inserting
  | recovering
  | counting
  | enqueuing
  | marking
  deriving DecidableEq

inductive Handler where
  | absent
  | rejected (exc : PyExc)
  | active (i : Intake) (phase : Phase)
  | answered (i : Intake) (resp : CreateWebhookResponse)
  | failed (i : Intake) (exc : PyExc)

structure World where
  store : Store
  procs : Nat → Proc
  handlers : Nat → Handler
  issued : List Uuid

namespace World

def initial : World where
  store := .empty
  procs := fun _ => {}
  handlers := fun _ => .absent
  issued := []

def setProc (w : World) (p : Nat) (P : Proc) : World :=
  { w with procs := Function.update w.procs p P }

def setHandler (w : World) (r : Nat) (h : Handler) : World :=
  { w with handlers := Function.update w.handlers r h }

def setStore (w : World) (s : Store) : World := { w with store := s }

@[simp] theorem setProc_store (w : World) (p : Nat) (P : Proc) : (w.setProc p P).store = w.store := rfl
@[simp] theorem setProc_procs (w : World) (p : Nat) (P : Proc) :
    (w.setProc p P).procs = Function.update w.procs p P := rfl
@[simp] theorem setProc_handlers (w : World) (p : Nat) (P : Proc) :
    (w.setProc p P).handlers = w.handlers := rfl
@[simp] theorem setProc_issued (w : World) (p : Nat) (P : Proc) : (w.setProc p P).issued = w.issued := rfl
@[simp] theorem setHandler_store (w : World) (r : Nat) (h : Handler) :
    (w.setHandler r h).store = w.store := rfl
@[simp] theorem setHandler_procs (w : World) (r : Nat) (h : Handler) :
    (w.setHandler r h).procs = w.procs := rfl
@[simp] theorem setHandler_handlers (w : World) (r : Nat) (h : Handler) :
    (w.setHandler r h).handlers = Function.update w.handlers r h := rfl
@[simp] theorem setHandler_issued (w : World) (r : Nat) (h : Handler) :
    (w.setHandler r h).issued = w.issued := rfl
@[simp] theorem setStore_store (w : World) (s : Store) : (w.setStore s).store = s := rfl
@[simp] theorem setStore_procs (w : World) (s : Store) : (w.setStore s).procs = w.procs := rfl
@[simp] theorem setStore_handlers (w : World) (s : Store) : (w.setStore s).handlers = w.handlers := rfl
@[simp] theorem setStore_issued (w : World) (s : Store) : (w.setStore s).issued = w.issued := rfl

end World

/-! ## Steps -/

inductive Act where
  | startup (p : Nat)
  | shutdown (p : Nat)
  | closeClient (p : Nat)
  | request (p r : Nat) (req : Request) (draws : Draws)
  | handler (r : Nat)
  | begin (p t : Nat)
  | take (p t : Nat)
  | work (p t : Nat) (input : Input)
  | finish (p t : Nat)
  | cancelled (p t : Nat)
  | cleanup (cutoff : Moment)

/-- What a step lets an observer see. -/
inductive Obs where
  | started (p : Nat)
  | stopped (p : Nat)
  | closed (p : Nat)
  | rejected (r : Nat) (exc : PyExc)
  | built (r : Nat) (i : Intake)
  | inserted (r : Nat) (row : Event)
  | conflict (r : Nat)
  | replayed (r : Nat) (row : Event)
  | lost (r : Nat)
  | counted (r : Nat) (source : String)
  | enqueued (r p q : Nat) (job : RelayJob)
  | refused (r : Nat)
  | uninitialised (r : Nat) (id : String)
  | marked (r : Nat) (id : String)
  | began (p t : Nat)
  | job (p t : Nat) (id : String) (eff : Effect)
  | idled (p t : Nat)
  | deleted (ids : List String)

/-- `EVENTS_RECEIVED_TOTAL.labels(source=source).inc()`. -/
def Proc.receive (P : Proc) (source : String) : Proc :=
  { P with eventsReceivedTotal :=
      Function.update P.eventsReceivedTotal source (P.eventsReceivedTotal source + 1) }

/-- The counters a job's step moves. -/
def Proc.count (P : Proc) (eff : Effect) : Proc :=
  match eff with
  | .posted _ => { P with relayAttemptsTotal := P.relayAttemptsTotal + 1 }
  | .answered (.raised _) => P
  | .answered res => { P with
      relayLatencyCount := P.relayLatencyCount + 1
      relaySuccessesTotal := P.relaySuccessesTotal + if res.ok then 1 else 0 }
  | _ => P

/-- The row a handler inserts. -/
def Intake.row (env : Env) (i : Intake) : Event := i.event.stored env.dropsTz

def jsonString (s : String) : Json := .str (text s)

def jsonHeaders (headers : List (String × String)) : Json :=
  .obj (headers.map (fun h => (text h.1, jsonString h.2)))

theorem depth_headers (headers : List (String × String)) : (jsonHeaders headers).depth ≤ 1 := by
  apply Nat.succ_le_succ
  rw [levelsObj_le, List.forall_mem_map]
  exact fun _ _ => Nat.le_refl 0

/-- Whether the flush can write the two JSON columns. -/
def Intake.writable (env : Env) (i : Intake) : Bool :=
  (dumps env.dumpsRoom .standard i.event.payload).isSome &&
    (dumps env.dumpsRoom .standard (jsonHeaders i.event.headers)).isSome

/-- The queue-full update, and the background update of a job's outcome. -/
def persistRelay (env : Env) (s : Store) (id : String) (result : RelayOutcome) : Store :=
  s.update id ((relayUpdateValues result).stored env.dropsTz)

/-- The next step of a request's handler. -/
def stepHandler (env : Env) (w : World) (r : Nat) : Option (World × Obs) :=
  match w.handlers r with
  | .active i .inserting =>
    -- a RecursionError of `json.dumps` comes as StatementError, which the `except` lets through
    if i.writable env then
      match w.store.insert (i.row env) with
      | some s => some ((w.setHandler r (.active i .counting)).setStore s, .inserted r (i.row env))
      | none =>
        -- `if not idempotency_key: raise` takes an empty key for an absent one
        if i.event.idempotencyKey.getD "" = "" then
          some (w.setHandler r (.failed i .integrityError), .lost r)
        else some (w.setHandler r (.active i .recovering), .conflict r)
    else some (w.setHandler r (.failed i .statementError), .lost r)
  | .active i .recovering =>
    match w.store.lookup i.event.source (i.event.idempotencyKey.getD "") with
    | some existing => some (w.setHandler r (.answered i (createResponse existing)), .replayed r existing)
    -- the row that made the conflict is gone: the bare `raise` re-raises IntegrityError
    | none => some (w.setHandler r (.failed i .integrityError), .lost r)
  | .active i .counting =>
    let w' := w.setProc i.pid ((w.procs i.pid).receive i.event.source)
    if (env.settings i.pid).targetUrl ≠ "" ∧ i.queuePreFull = false then
      some (w'.setHandler r (.active i .enqueuing), .counted r i.event.source)
    else some (w'.setHandler r (.answered i (createResponse i.event)), .counted r i.event.source)
  | .active i .enqueuing =>
    let P := w.procs i.pid
    let job := relayJob (env.settings i.pid) i.event
    match P.dispatcher.enqueue job with
    -- the dispatcher was shut down after the capacity check; the row stays
    | .error exc => some (w.setHandler r (.failed i exc), .uninitialised r i.event.id)
    | .ok (d, true) =>
      some ((w.setProc i.pid { P with dispatcher := d }).setHandler r
        (.answered i (createResponse i.event)),
        .enqueued r i.pid (P.dispatcher.dispatchQueue.getD 0) job)
    | .ok (_, false) => some (w.setHandler r (.active i .marking), .refused r)
  | .active i .marking =>
    some ((w.setHandler r (.answered i (createResponse (applyRelayResult i.event queueFullRelayResult)))).setStore
      (persistRelay env w.store i.event.id queueFullRelayResult), .marked r i.event.id)
  | _ => none

/-- How the job of a task that stands at `pos` has ended, if it has. -/
def Position.ended? : Position → Option JobEnd
  | .returned => some .returned
  | .raised exc => some (.raised exc)
  | _ => none

/-- A step of the task's job. -/
def stepJob (env : Env) (w : World) (p t : Nat) (input : Input) : Option (World × Obs) :=
  let P := w.procs p
  match (P.dispatcher.tasks t).state, (P.dispatcher.tasks t).cancelled with
  -- a cancelled task runs no more code of its job
  | .running q job pos, false =>
    match advance env P.client job pos input with
    | none => none
    | some (pos', eff) =>
      let w' := w.setProc p
        ({ P with dispatcher := P.dispatcher.setState t (.running q job pos') }.count eff)
      some (match eff with
        | .recorded out => w'.setStore (persistRelay env w.store job.eventId out)
        | _ => w', .job p t job.eventId eff)
  | _, _ => none

/-- The worker's loop goes on after its job has ended. -/
def stepFinish (w : World) (p t : Nat) : Option (World × Obs) :=
  let P := w.procs p
  match (P.dispatcher.tasks t).state, (P.dispatcher.tasks t).cancelled with
  | .running _ job pos, false =>
    match pos.ended? with
    | none => none
    | some e => (P.dispatcher.jobDone t e).map (fun d =>
        (w.setProc p { P with dispatcher := d }, .job p t job.eventId .finished))
  | _, _ => none

/-- A cancelled task ends. -/
def stepCancelled (w : World) (p t : Nat) : Option (World × Obs) :=
  let P := w.procs p
  match (P.dispatcher.tasks t).state, (P.dispatcher.tasks t).cancelled with
  | .running _ job _, true => (P.dispatcher.jobDone t .cancelled).map (fun d =>
      (w.setProc p { P with dispatcher := d }, .job p t job.eventId .dropped))
  | .created, true | .waiting _, true =>
    some (w.setProc p { P with dispatcher := P.dispatcher.setState t .ended }, .idled p t)
  | _, _ => none

/-- Whether the `gather` of a shutdown has returned. -/
def Dispatcher.quiet {J P : Type} (d : Dispatcher J P) : Bool :=
  (List.range d.nextTask).all (fun t => match (d.tasks t).state with | .ended => true | _ => false)

def step (env : Env) (w : World) : Act → Option (World × Obs)
  | .startup p =>
    let P := w.procs p
    if P.client then none
    else some (w.setProc p { P with
      client := true
      dispatcher := P.dispatcher.startup (env.settings p).relayWorkerConcurrency
        (env.settings p).relayQueueSize }, .started p)
  | .shutdown p =>
    let P := w.procs p
    if P.client ∧ P.dispatcher.dispatchQueue.isSome then
      some (w.setProc p { P with dispatcher := P.dispatcher.shutdown }, .stopped p)
    else none
  | .closeClient p =>
    let P := w.procs p
    -- `shutdown_http_client` comes after the `gather` of the cancelled workers
    if P.client ∧ P.dispatcher.dispatchQueue = none ∧ P.dispatcher.quiet then
      some (w.setProc p { P with client := false }, .closed p)
    else none
  | .request p r req draws =>
    match w.handlers r with
    | .absent =>
      -- a `uuid4` is never drawn twice
      if draws.requestUuid ∈ w.issued ∨ draws.eventUuid ∈ w.issued ∨ draws.requestUuid = draws.eventUuid then
        none
      else
        let w' := { w with issued := draws.requestUuid :: draws.eventUuid :: w.issued }
        match buildEvent env p (w.procs p).dispatcher.hasCapacity req draws with
        | .ok i => some (w'.setHandler r (.active i .inserting), .built r i)
        | .error exc => some (w'.setHandler r (.rejected exc), .rejected r exc)
    | _ => none
  | .handler r => stepHandler env w r
  | .begin p t =>
    let P := w.procs p
    (P.dispatcher.begin t).map (fun d => (w.setProc p { P with dispatcher := d }, .began p t))
  | .take p t =>
    let P := w.procs p
    (P.dispatcher.take t .start).map (fun r =>
      (w.setProc p { P with dispatcher := r.1 }, .job p t r.2.2.eventId .taken))
  | .work p t input => stepJob env w p t input
  | .finish p t => stepFinish w p t
  | .cancelled p t => stepCancelled w p t
  | .cleanup cutoff =>
    some (w.setStore (w.store.deleteBefore cutoff), .deleted ((w.store.expired cutoff).map (fun e => e.id)))

/-! ## What a step can do -/

/-- The world with a process's dispatcher replaced. -/
def World.setDispatcher (w : World) (p : Nat) (d : Dispatcher RelayJob Position) : World :=
  w.setProc p { w.procs p with dispatcher := d }

/-- The steps, each with the state it needs and the state it makes. -/
inductive Move (env : Env) (w : World) : Act → World → Obs → Prop where
  | started {p : Nat} (hc : (w.procs p).client = false) :
      Move env w (.startup p)
        (w.setProc p { w.procs p with
          client := true
          dispatcher := (w.procs p).dispatcher.startup (env.settings p).relayWorkerConcurrency
            (env.settings p).relayQueueSize })
        (.started p)
  | stopped {p q : Nat} (hc : (w.procs p).client = true)
      (hq : (w.procs p).dispatcher.dispatchQueue = some q) :
      Move env w (.shutdown p) (w.setDispatcher p (w.procs p).dispatcher.shutdown) (.stopped p)
  | closed {p : Nat} (hq : (w.procs p).dispatcher.dispatchQueue = none)
      (hquiet : (w.procs p).dispatcher.quiet = true) :
      Move env w (.closeClient p) (w.setProc p { w.procs p with client := false }) (.closed p)
  | rejected {p r : Nat} {req : Request} {draws : Draws} {exc : PyExc}
      (ha : w.handlers r = .absent) :
      Move env w (.request p r req draws)
        (({ w with issued := draws.requestUuid :: draws.eventUuid :: w.issued }).setHandler r
          (.rejected exc)) (.rejected r exc)
  | built {p r : Nat} {req : Request} {draws : Draws} {i : Intake} (ha : w.handlers r = .absent)
      (hfresh : draws.eventUuid ∉ w.issued)
      (hb : buildEvent env p (w.procs p).dispatcher.hasCapacity req draws = .ok i) :
      Move env w (.request p r req draws)
        (({ w with issued := draws.requestUuid :: draws.eventUuid :: w.issued }).setHandler r
          (.active i .inserting)) (.built r i)
  | inserted {r : Nat} {i : Intake} {s : Store} (hh : w.handlers r = .active i .inserting)
      (hs : w.store.insert (i.row env) = some s) :
      Move env w (.handler r) ((w.setHandler r (.active i .counting)).setStore s)
        (.inserted r (i.row env))
  | conflict {r : Nat} {i : Intake} (hh : w.handlers r = .active i .inserting)
      (hs : w.store.Conflicts (i.row env)) (hkey : i.event.idempotencyKey.getD "" ≠ "") :
      Move env w (.handler r) (w.setHandler r (.active i .recovering)) (.conflict r)
  | lostInsert {r : Nat} {i : Intake} {exc : PyExc} (hh : w.handlers r = .active i .inserting)
      (hexc : exc = if i.writable env then .integrityError else .statementError)
      (hlost : i.writable env = true →
        w.store.Conflicts (i.row env) ∧ i.event.idempotencyKey.getD "" = "") :
      Move env w (.handler r) (w.setHandler r (.failed i exc)) (.lost r)
  | replayed {r : Nat} {i : Intake} {row : Event} (hh : w.handlers r = .active i .recovering)
      (hl : w.store.lookup i.event.source (i.event.idempotencyKey.getD "") = some row) :
      Move env w (.handler r) (w.setHandler r (.answered i (createResponse row))) (.replayed r row)
  | lostLookup {r : Nat} {i : Intake} (hh : w.handlers r = .active i .recovering)
      (hl : w.store.lookup i.event.source (i.event.idempotencyKey.getD "") = none) :
      Move env w (.handler r) (w.setHandler r (.failed i .integrityError)) (.lost r)
  | countedRelay {r : Nat} {i : Intake} (hh : w.handlers r = .active i .counting)
      (ht : (env.settings i.pid).targetUrl ≠ "") (hq : i.queuePreFull = false) :
      Move env w (.handler r)
        ((w.setProc i.pid ((w.procs i.pid).receive i.event.source)).setHandler r
          (.active i .enqueuing)) (.counted r i.event.source)
  | countedOnly {r : Nat} {i : Intake} (hh : w.handlers r = .active i .counting)
      (ht : ¬ ((env.settings i.pid).targetUrl ≠ "" ∧ i.queuePreFull = false)) :
      Move env w (.handler r)
        ((w.setProc i.pid ((w.procs i.pid).receive i.event.source)).setHandler r
          (.answered i (createResponse i.event))) (.counted r i.event.source)
  | enqueued {r q : Nat} {i : Intake} {d : Dispatcher RelayJob Position}
      (hh : w.handlers r = .active i .enqueuing)
      (hq : (w.procs i.pid).dispatcher.dispatchQueue = some q)
      (hd : d = (w.procs i.pid).dispatcher.setQueue q { (w.procs i.pid).dispatcher.queues q with
        items := ((w.procs i.pid).dispatcher.queues q).items ++ [relayJob (env.settings i.pid) i.event]
        unfinished := ((w.procs i.pid).dispatcher.queues q).unfinished + 1 }) :
      Move env w (.handler r)
        ((w.setDispatcher i.pid d).setHandler r (.answered i (createResponse i.event)))
        (.enqueued r i.pid q (relayJob (env.settings i.pid) i.event))
  | refused {r : Nat} {i : Intake} (hh : w.handlers r = .active i .enqueuing) :
      Move env w (.handler r) (w.setHandler r (.active i .marking)) (.refused r)
  | uninitialised {r : Nat} {i : Intake} {exc : PyExc} (hh : w.handlers r = .active i .enqueuing)
      (hq : (w.procs i.pid).dispatcher.dispatchQueue = none) :
      Move env w (.handler r) (w.setHandler r (.failed i exc)) (.uninitialised r i.event.id)
  | marked {r : Nat} {i : Intake} (hh : w.handlers r = .active i .marking) :
      Move env w (.handler r)
        ((w.setHandler r
          (.answered i (createResponse (applyRelayResult i.event queueFullRelayResult)))).setStore
          (persistRelay env w.store i.event.id queueFullRelayResult)) (.marked r i.event.id)
  | began {p t q : Nat} (hs : ((w.procs p).dispatcher.tasks t).state = .created)
      (hc : ((w.procs p).dispatcher.tasks t).cancelled = false)
      (hq : (w.procs p).dispatcher.dispatchQueue = some q) :
      Move env w (.begin p t) (w.setDispatcher p ((w.procs p).dispatcher.setState t (.waiting q)))
        (.began p t)
  | beganLate {p t : Nat} (hs : ((w.procs p).dispatcher.tasks t).state = .created)
      (hc : ((w.procs p).dispatcher.tasks t).cancelled = false)
      (hq : (w.procs p).dispatcher.dispatchQueue = none) :
      Move env w (.begin p t) (w.setDispatcher p ((w.procs p).dispatcher.setState t .ended))
        (.began p t)
  | taken {p t q : Nat} {job : RelayJob} {rest : List RelayJob}
      (hs : ((w.procs p).dispatcher.tasks t).state = .waiting q)
      (hc : ((w.procs p).dispatcher.tasks t).cancelled = false)
      (hi : ((w.procs p).dispatcher.queues q).items = job :: rest) :
      Move env w (.take p t)
        (w.setDispatcher p (((w.procs p).dispatcher.setQueue q
          { (w.procs p).dispatcher.queues q with items := rest }).setState t (.running q job .start)))
        (.job p t job.eventId .taken)
  | worked {p t q : Nat} {job : RelayJob} {pos pos' : Position} {input : Input} {eff : Effect}
      (hs : ((w.procs p).dispatcher.tasks t).state = .running q job pos)
      (hc : ((w.procs p).dispatcher.tasks t).cancelled = false)
      (ha : advance env (w.procs p).client job pos input = some (pos', eff))
      (hr : ∀ out, eff ≠ .recorded out) :
      Move env w (.work p t input)
        (w.setProc p ({ w.procs p with
          dispatcher := (w.procs p).dispatcher.setState t (.running q job pos') }.count eff))
        (.job p t job.eventId eff)
  | recorded {p t q : Nat} {job : RelayJob} {out : RelayOutcome}
      (hs : ((w.procs p).dispatcher.tasks t).state = .running q job (.persist out))
      (hc : ((w.procs p).dispatcher.tasks t).cancelled = false) :
      Move env w (.work p t .persist)
        ((w.setDispatcher p ((w.procs p).dispatcher.setState t (.running q job .returned))).setStore
          (persistRelay env w.store job.eventId out))
        (.job p t job.eventId (.recorded out))
  | finished {p t q : Nat} {job : RelayJob} {pos : Position} {e : JobEnd}
      {d : Dispatcher RelayJob Position}
      (hs : ((w.procs p).dispatcher.tasks t).state = .running q job pos)
      (hc : ((w.procs p).dispatcher.tasks t).cancelled = false) (he : pos.ended? = some e)
      (hd : (w.procs p).dispatcher.jobDone t e = some d) :
      Move env w (.finish p t) (w.setDispatcher p d) (.job p t job.eventId .finished)
  | dropped {p t q : Nat} {job : RelayJob} {pos : Position} {d : Dispatcher RelayJob Position}
      (hs : ((w.procs p).dispatcher.tasks t).state = .running q job pos)
      (hc : ((w.procs p).dispatcher.tasks t).cancelled = true)
      (hd : (w.procs p).dispatcher.jobDone t .cancelled = some d) :
      Move env w (.cancelled p t) (w.setDispatcher p d) (.job p t job.eventId .dropped)
  | idled {p t : Nat}
      (hs : ((w.procs p).dispatcher.tasks t).state = .created ∨
        ∃ q, ((w.procs p).dispatcher.tasks t).state = .waiting q)
      (hc : ((w.procs p).dispatcher.tasks t).cancelled = true) :
      Move env w (.cancelled p t) (w.setDispatcher p ((w.procs p).dispatcher.setState t .ended))
        (.idled p t)
  | deleted {cutoff : Moment} :
      Move env w (.cleanup cutoff) (w.setStore (w.store.deleteBefore cutoff))
        (.deleted ((w.store.expired cutoff).map (fun e => e.id)))

/-- The outcome is written only by the step at `persist`. -/
theorem advance_recorded {env : Env} {client : Bool} {job : RelayJob} {pos pos' : Position}
    {input : Input} {out : RelayOutcome} (h : advance env client job pos input = some (pos', .recorded out)) :
    pos = .persist out ∧ input = .persist ∧ pos' = .returned := by
  have ht := Turn.of_advance h
  generalize heff : Effect.recorded out = eff at ht
  cases ht <;> cases heff
  exact ⟨rfl, rfl, rfl⟩

section Moves

variable {env : Env} {w w' : World} {o : Obs}

theorem Move.of_handler {r : Nat} (h : stepHandler env w r = some (w', o)) :
    Move env w (.handler r) w' o := by
  unfold stepHandler at h
  split at h
  · next i hh =>
    split at h
    · next hwritable =>
      split at h
      · next s hs =>
        cases h
        exact .inserted hh hs
      · next hs =>
        have hc := Store.insert_eq_none.mp hs
        split at h
        · next hkey =>
          cases h
          exact .lostInsert hh (if_pos hwritable).symm (fun _ => ⟨hc, hkey⟩)
        · next hkey =>
          cases h
          exact .conflict hh hc hkey
    · next hwritable =>
      cases h
      exact .lostInsert hh (if_neg hwritable).symm (fun hw => absurd hw hwritable)
  · next i hh =>
    split at h
    · next row hl =>
      cases h
      exact .replayed hh hl
    · next hl =>
      cases h
      exact .lostLookup hh hl
  · next i hh =>
    split at h
    · next ht =>
      cases h
      exact .countedRelay hh ht.1 ht.2
    · next ht =>
      cases h
      exact .countedOnly hh ht
  · next i hh =>
    simp only at h
    split at h
    · next exc he =>
      cases h
      refine .uninitialised hh ?_
      unfold Dispatcher.enqueue at he
      split at he
      · assumption
      · split at he <;> cases he
    · next d he =>
      cases h
      obtain ⟨q, hq, ⟨-, -, hd⟩ | ⟨hb, -, -⟩⟩ := Dispatcher.enqueue_ok he
      · rw [hq]
        exact .enqueued hh hq hd
      · cases hb
    · cases h
      exact .refused hh
  · next i hh =>
    cases h
    exact .marked hh
  · cases h

theorem Move.of_job {p t : Nat} {input : Input} (h : stepJob env w p t input = some (w', o)) :
    Move env w (.work p t input) w' o := by
  unfold stepJob at h
  simp only at h
  split at h
  · next q job pos hs hc =>
    split at h
    · cases h
    · next pos' eff ha =>
      -- the one effect that also writes to the store is a move of its own
      cases eff with
      | recorded out =>
        cases h
        obtain ⟨rfl, rfl, rfl⟩ := advance_recorded ha
        exact .recorded hs hc
      | taken | called | resolved _ | posted _ | answered _ | finished | dropped =>
        cases h
        refine .worked hs hc ha ?_
        intro out hout
        cases hout
  · cases h

theorem Move.of_step {a : Act} (h : step env w a = some (w', o)) : Move env w a w' o := by
  cases a with
  | startup p =>
    simp only [step] at h
    split at h
    · cases h
    · next hc =>
      cases h
      exact .started (Bool.eq_false_of_not_eq_true hc)
  | shutdown p =>
    simp only [step] at h
    split at h
    · next hc =>
      cases h
      obtain ⟨q, hq⟩ := Option.isSome_iff_exists.mp hc.2
      exact .stopped hc.1 hq
    · cases h
  | closeClient p =>
    simp only [step] at h
    split at h
    · next hc =>
      cases h
      exact .closed hc.2.1 hc.2.2
    · cases h
  | request p r req draws =>
    simp only [step] at h
    split at h
    · next ha =>
      split at h
      · cases h
      · next hfresh =>
        simp only [not_or] at hfresh
        split at h
        · next i hb =>
          cases h
          exact .built ha hfresh.2.1 hb
        · cases h
          exact .rejected ha
    · cases h
  | handler r => exact .of_handler h
  | begin p t =>
    obtain ⟨d, hb, hd⟩ := Option.map_eq_some_iff.mp h
    cases hd
    obtain ⟨hs, hc, ⟨hq, rfl⟩ | ⟨q, hq, rfl⟩⟩ := Dispatcher.begin_some hb
    · exact .beganLate hs hc hq
    · exact .began hs hc hq
  | take p t =>
    obtain ⟨⟨d, q, job⟩, hb, hd⟩ := Option.map_eq_some_iff.mp h
    cases hd
    obtain ⟨hs, hc, rest, hi, rfl⟩ := Dispatcher.take_some hb
    exact .taken hs hc hi
  | work p t input => exact .of_job h
  | finish p t =>
    simp only [step, stepFinish] at h
    split at h
    · next q job pos hs hc =>
      split at h
      · cases h
      · next e he =>
        obtain ⟨d, hd, hw⟩ := Option.map_eq_some_iff.mp h
        cases hw
        exact .finished hs hc he hd
    · cases h
  | cancelled p t =>
    simp only [step, stepCancelled] at h
    split at h
    · next q job pos hs hc =>
      obtain ⟨d, hd, hw⟩ := Option.map_eq_some_iff.mp h
      cases hw
      exact .dropped hs hc hd
    · next hs hc =>
      cases h
      exact .idled (.inl hs) hc
    · next q hs hc =>
      cases h
      exact .idled (.inr ⟨q, hs⟩) hc
    · cases h
  | cleanup cutoff =>
    cases h
    exact .deleted

/-- A row is inserted only with its JSON columns written. -/
theorem inserted_writable {a : Act} {r : Nat} {row : Event} (h : step env w a = some (w', .inserted r row)) :
    ∃ i, w.handlers r = .active i .inserting ∧ row = i.row env ∧ i.writable env = true := by
  have hm := Move.of_step h
  cases hm with
  | @inserted _ i s hh hs =>
    refine ⟨i, hh, rfl, ?_⟩
    by_contra hnot
    simp only [step, stepHandler, hh, if_neg hnot, Option.some.injEq, Prod.mk.injEq, reduceCtorEq, and_false] at h

@[simp] theorem Proc.count_dispatcher (P : Proc) (eff : Effect) :
    (P.count eff).dispatcher = P.dispatcher := by
  unfold Proc.count
  split <;> rfl

@[simp] theorem Proc.count_client (P : Proc) (eff : Effect) : (P.count eff).client = P.client := by
  unfold Proc.count
  split <;> rfl

/-- The process a world has at `p` when that of `p'` is replaced. -/
theorem World.setProc_cases (w : World) (p p' : Nat) (P : Proc) :
    (p = p' ∧ (w.setProc p' P).procs p = P) ∨ (w.setProc p' P).procs p = w.procs p := by
  by_cases h : p = p'
  · subst h
    exact .inl ⟨rfl, Function.update_self ..⟩
  · exact .inr (Function.update_of_ne h ..)

/-- Only startup and shutdown move the globals of a dispatcher. -/
theorem Move.globals {a : Act} (hm : Move env w a w' o) (p : Nat) :
    ((w'.procs p).dispatcher.dispatchQueue = (w.procs p).dispatcher.dispatchQueue ∧
        (w'.procs p).dispatcher.dispatchWorkers = (w.procs p).dispatcher.dispatchWorkers) ∨
      (a = .startup p ∧ (w'.procs p).dispatcher = (w.procs p).dispatcher.startup
        (env.settings p).relayWorkerConcurrency (env.settings p).relayQueueSize) ∨
      (a = .shutdown p ∧ (w'.procs p).dispatcher = (w.procs p).dispatcher.shutdown) := by
  -- a move that keeps the globals of the process it replaces keeps all of them
  have keep : ∀ p' P, (P : Proc).dispatcher.dispatchQueue = (w.procs p').dispatcher.dispatchQueue →
      P.dispatcher.dispatchWorkers = (w.procs p').dispatcher.dispatchWorkers →
      ((w.setProc p' P).procs p).dispatcher.dispatchQueue = (w.procs p).dispatcher.dispatchQueue ∧
        ((w.setProc p' P).procs p).dispatcher.dispatchWorkers =
          (w.procs p).dispatcher.dispatchWorkers := by
    intro p' P hq hw
    rcases w.setProc_cases p p' P with ⟨rfl, h⟩ | h
    · rw [h]
      exact ⟨hq, hw⟩
    · rw [h]
      exact ⟨rfl, rfl⟩
  cases hm with
  | @started p' hc =>
    by_cases hp : p = p'
    · subst hp
      refine .inr (.inl ⟨rfl, ?_⟩)
      simp only [World.setProc_procs, Function.update_self]
    · refine .inl ?_
      simp only [World.setProc_procs, Function.update_of_ne hp, and_self]
  | @stopped p' q hc hq =>
    by_cases hp : p = p'
    · subst hp
      refine .inr (.inr ⟨rfl, ?_⟩)
      simp only [World.setDispatcher, World.setProc_procs, Function.update_self]
    · refine .inl ?_
      simp only [World.setDispatcher, World.setProc_procs, Function.update_of_ne hp, and_self]
  | closed _ _ => exact .inl (keep _ _ rfl rfl)
  | rejected | built | inserted | conflict | lostInsert | replayed | lostLookup | refused | uninitialised
  | marked | deleted => exact .inl ⟨rfl, rfl⟩
  | countedRelay | countedOnly => exact .inl (keep _ _ rfl rfl)
  | enqueued hh hq hd => exact .inl (keep _ _ (by rw [hd]; rfl) (by rw [hd]; rfl))
  | began | beganLate | taken | idled => exact .inl (keep _ _ rfl rfl)
  | worked =>
    exact .inl (keep _ _ (by rw [Proc.count_dispatcher]; rfl) (by rw [Proc.count_dispatcher]; rfl))
  | recorded => exact .inl (keep _ _ rfl rfl)
  | finished hs hc he hd =>
    obtain ⟨hq, hw, -⟩ := Dispatcher.jobDone_globals hd
    exact .inl (keep _ _ hq hw)
  | dropped hs hc hd =>
    obtain ⟨hq, hw, -⟩ := Dispatcher.jobDone_globals hd
    exact .inl (keep _ _ hq hw)

end Moves

end WebhookRelay
