import WebhookRelay.Metrics
import WebhookRelay.Payloads

/-
  What the handlers and the workers log. Each logger call of api/routes.py and
  services/relay.py is an `Entry`, and `logged` reads them off the steps of a
  process. The entries of a run number what the counters of the process count
  (`counts_run`) and name the events it has counted, each once (`journal_ids`).

  A worker runs in the context of the lifespan that started it, whose request id is
  the default `-`: its entries name no request and no event.
-/
namespace WebhookRelay

open Py Transition

/-! ## Entries -/

/-- A call of the loggers `app.api` and `app.relay`. -/
inductive Entry where
  | eventReceived (source eventId : String)
  | relayQueueFull (source eventId : String)
  | relaySuccess (statusCode : Int) (attempt : Nat)
  | relayNon2xx (statusCode : Int) (attempt : Nat)
  | relayTimeout (attempt : Nat)
  | relayConnectError (attempt : Nat) (error : String)
  | relayHttpError (attempt : Nat) (error : String)
  | relayDispatchJobFailed (worker : Nat)
  deriving DecidableEq

namespace Entry

def logger : Entry → String
  | .eventReceived _ _ | .relayQueueFull _ _ => "app.api"
  | .relaySuccess _ _ | .relayNon2xx _ _ | .relayTimeout _ | .relayConnectError _ _ | .relayHttpError _ _
  | .relayDispatchJobFailed _ => "app.relay"

def message : Entry → String
  | .eventReceived _ _ => "event_received"
  | .relayQueueFull _ _ => "relay_queue_full"
  | .relaySuccess _ _ => "relay_success"
  | .relayNon2xx _ _ => "relay_non_2xx"
  | .relayTimeout _ => "relay_timeout"
  | .relayConnectError _ _ => "relay_connect_error"
  | .relayHttpError _ _ => "relay_http_error"
  | .relayDispatchJobFailed _ => "relay_dispatch_job_failed"

def levelname : Entry → String
  | .eventReceived _ _ | .relaySuccess _ _ => "INFO"
  | .relayDispatchJobFailed _ => "ERROR"
  | .relayQueueFull _ _ | .relayNon2xx _ _ | .relayTimeout _ | .relayConnectError _ _ | .relayHttpError _ _ => "WARNING"

def levelno : Entry → Nat
  | .eventReceived _ _ | .relaySuccess _ _ => 20
  | .relayDispatchJobFailed _ => 40
  | .relayQueueFull _ _ | .relayNon2xx _ _ | .relayTimeout _ | .relayConnectError _ _ | .relayHttpError _ _ => 30

def extra : Entry → List (String × Json)
  | .eventReceived source eventId | .relayQueueFull source eventId =>
    [("source", jsonString source), ("event_id", jsonString eventId)]
  | .relaySuccess statusCode attempt | .relayNon2xx statusCode attempt =>
    [("status_code", .int statusCode), ("attempt", .int attempt)]
  | .relayTimeout attempt => [("attempt", .int attempt)]
  | .relayConnectError attempt error | .relayHttpError attempt error =>
    [("attempt", .int attempt), ("error", jsonString error)]
  | .relayDispatchJobFailed worker => [("worker", .int worker)]

/-- The keys a call passes, whichever it is. -/
theorem extra_keys (e : Entry) : e.extra.map Prod.fst ∈
    [["source", "event_id"], ["status_code", "attempt"], ["attempt"], ["attempt", "error"], ["worker"]] := by
  cases e <;> simp [extra]

end Entry

/-! ## What steps log -/

/-- What `relay_event` logs on the result of its POST number `n`. -/
def PostResult.entry (n : Nat) : PostResult → Option Entry
  | .response statusCode =>
    if 200 ≤ statusCode ∧ statusCode < 300 then some (.relaySuccess statusCode n)
    else some (.relayNon2xx statusCode n)
  | .timeoutException _ => some (.relayTimeout n)
  | .connectError text => some (.relayConnectError n text)
  | .httpError text => some (.relayHttpError n text)
  | .raised _ => none

/-- What a job's step logs at a position; `worker` is the index of its worker. -/
def Effect.entry (worker : Nat) : Effect → Position → Option Entry
  | .answered res, .inFlight n _ => res.entry n
  | .finished, .raised _ => some (.relayDispatchJobFailed worker)
  | _, _ => none

/-- What a step logs in process `p`, with the request id of its context. -/
def logged (worker : Nat → Nat) (p : Nat) (w : World) (_ : Act) (o : Obs) (_ : World) : Option (String × Entry) :=
  match o with
  | .counted r source =>
    match w.handlers r with
    | .active i _ => if i.pid = p then some (i.event.requestId, .eventReceived source i.event.id) else none
    | _ => none
  | .marked r id =>
    match w.handlers r with
    | .active i _ => if i.pid = p then some (i.event.requestId, .relayQueueFull i.event.source id) else none
    | _ => none
  | .job p' t _ eff =>
    if p' = p then
      match w.jobAt p t with
      | some (_, _, pos) => (eff.entry (worker t) pos).map ("-", ·)
      | none => none
    else none
  | _ => none

/-- What a run logs in process `p`. -/
def journal (env : Env) (worker : Nat → Nat) (p : Nat) (as : List Act) : List (String × Entry) :=
  along (step env) (logged worker p) World.initial as

/-! ## The journal of a run -/

namespace Entry

/-- The source of a received event. -/
def receivedFrom : Entry → Option String
  | .eventReceived source _ => some source
  | _ => none

/-- The id of a received event. -/
def receivedId : Entry → Option String
  | .eventReceived _ eventId => some eventId
  | _ => none

def isSuccess : Entry → Bool
  | .relaySuccess _ _ => true
  | _ => false

/-- A POST has ended in a response or an `httpx.HTTPError`. -/
def isAnswer : Entry → Bool
  | .relaySuccess _ _ | .relayNon2xx _ _ | .relayTimeout _ | .relayConnectError _ _ | .relayHttpError _ _ => true
  | .eventReceived _ _ | .relayQueueFull _ _ | .relayDispatchJobFailed _ => false

end Entry

/-- The counters of a process are the numbers of the entries. -/
structure Proc.Counts (P : Proc) (entries : List (String × Entry)) : Prop where
  received : ∀ source, P.eventsReceivedTotal source = entries.countP (fun e => e.2.receivedFrom == some source)
  successes : P.relaySuccessesTotal = entries.countP (fun e => e.2.isSuccess)
  answers : P.relayLatencyCount = entries.countP (fun e => e.2.isAnswer)

section

variable {env : Env} {w w' : World} {a : Act} {o : Obs} {as : List Act} {os : List Obs} (worker : Nat → Nat) (p : Nat)

/-- What a step shows in the journal at a position. -/
theorem Effect.entry_counts {eff : Effect} {pos : Position} {t : Nat}
    (hpos : ∀ res, eff = .answered res → ∃ q job n vars, pos = .inFlight n vars ∧ w.jobAt p t = some (q, job, pos))
    (k : Nat) :
    (∀ entry ∈ eff.entry k pos, entry.receivedFrom = none ∧ entry.receivedId = none) ∧
      (eff.entry k pos).toList.countP Entry.isSuccess = (if eff.isSuccess then 1 else 0) ∧
      (eff.entry k pos).toList.countP Entry.isAnswer = if eff.isAnswer then 1 else 0 := by
  cases eff with
  | answered res =>
    obtain ⟨-, -, n, vars, rfl, -⟩ := hpos res rfl
    cases res with
    | response statusCode =>
      by_cases h : 200 ≤ statusCode ∧ statusCode < 300 <;>
        simp [Effect.entry, PostResult.entry, h, Entry.receivedFrom, Entry.receivedId, Entry.isSuccess,
          Entry.isAnswer, Effect.isSuccess, Effect.isAnswer, PostResult.ok]
    | timeoutException _ | connectError _ | httpError _ | raised _ =>
      simp [Effect.entry, PostResult.entry, Entry.receivedFrom, Entry.receivedId, Entry.isSuccess, Entry.isAnswer,
        Effect.isSuccess, Effect.isAnswer, PostResult.ok]
  | finished =>
    cases pos <;> simp [Effect.entry, Entry.receivedFrom, Entry.receivedId, Entry.isSuccess, Entry.isAnswer,
      Effect.isSuccess, Effect.isAnswer]
  | taken | called | resolved _ | posted _ | recorded _ | dropped =>
    simp [Effect.entry, Effect.isSuccess, Effect.isAnswer]

/-- What a job's step logs: what its effect shows at the position of the job. -/
theorem Move.logged_job {p' t : Nat} {id : String} {eff : Effect} (hm : Move env w a w' (.job p' t id eff)) :
    (p' ≠ p ∧ logged worker p w a (.job p' t id eff) w' = none) ∨
      (p' = p ∧ ∃ pos, logged worker p w a (.job p' t id eff) w' = (eff.entry (worker t) pos).map ("-", ·) ∧
        ∀ res, eff = .answered res → ∃ q job n vars, pos = .inFlight n vars ∧ w.jobAt p t = some (q, job, pos)) := by
  by_cases hp : p' = p
  · subst hp
    refine .inr ⟨rfl, ?_⟩
    cases hjob : w.jobAt p' t with
    | none =>
      refine ⟨.start, ?_, ?_⟩
      · simp only [logged, if_true, hjob]
        cases eff <;> rfl
      · rintro res rfl
        cases hm with
        | worked hs =>
          rw [World.jobAt, Dispatcher.jobAt_eq_some.mpr hs] at hjob
          cases hjob
    | some j =>
      obtain ⟨q, job, pos⟩ := j
      refine ⟨pos, ?_, ?_⟩
      · simp only [logged, if_true, hjob]
      · rintro res rfl
        cases hm with
        | worked hs _ ha =>
          rw [World.jobAt, Dispatcher.jobAt_eq_some.mpr hs] at hjob
          cases hjob
          generalize heff : Effect.answered res = eff at ha
          cases Turn.of_advance ha <;> cases heff
          exact ⟨_, _, _, _, rfl, rfl⟩
  · exact .inl ⟨hp, if_neg hp⟩

/-- The counters of effects count what a step logs. -/
theorem Move.logged_effects (hm : Move env w a w' o) :
    (logged worker p w a o w').toList.countP (fun e => e.2.isSuccess) =
        (if o.jobShows p Effect.isSuccess then 1 else 0) ∧
      (logged worker p w a o w').toList.countP (fun e => e.2.isAnswer) =
        if o.jobShows p Effect.isAnswer then 1 else 0 := by
  cases o with
  | counted r source | marked r id =>
    simp only [logged, Obs.jobShows]
    split
    · split <;> simp [Entry.isSuccess, Entry.isAnswer]
    · simp
  | job p' t id eff =>
    rcases hm.logged_job worker p with ⟨hp, hnone⟩ | ⟨rfl, pos, hlogged, hpos⟩
    · simp [hnone, Obs.jobShows, hp]
    · obtain ⟨-, hsuccess, hanswer⟩ := Effect.entry_counts _ hpos (worker t)
      rw [hlogged, Obs.jobShows, Obs.jobShows, beq_self_eq_true, Bool.true_and, Bool.true_and, ← hsuccess, ← hanswer]
      cases eff.entry (worker t) pos <;> exact ⟨rfl, rfl⟩
  | started | stopped | closed | rejected | built | inserted | conflict | replayed | lost | enqueued | refused
  | uninitialised | began | idled | deleted => exact ⟨rfl, rfl⟩

/-- What a step that counts an event logs. -/
theorem Move.logged_counted {r : Nat} {source : String} (hm : Move env w a w' (.counted r source)) :
    ∃ i, w.handlers r = .active i .counting ∧ source = i.event.source ∧ a.process w = some i.pid ∧
      logged worker p w a (.counted r source) w' =
        if i.pid = p then some (i.event.requestId, .eventReceived i.event.source i.event.id) else none := by
  cases hm with
  | @countedRelay _ i hh | @countedOnly _ i hh =>
    exact ⟨i, hh, rfl, by simp only [Act.process, hh], by simp only [logged, hh]⟩

/-- A step that counts no event logs none as received. -/
theorem Move.logged_other (hm : Move env w a w' o) (ho : ∀ r source, o ≠ .counted r source) :
    ∀ e ∈ logged worker p w a o w', e.2.receivedFrom = none ∧ e.2.receivedId = none := by
  cases o with
  | counted r source => exact absurd rfl (ho r source)
  | marked r id =>
    intro e he
    simp only [logged] at he
    split at he
    · split at he <;> cases he
      exact ⟨rfl, rfl⟩
    · cases he
  | job p' t id eff =>
    rcases hm.logged_job worker p with ⟨-, hnone⟩ | ⟨-, pos, hlogged, hpos⟩
    · rw [hnone]
      intro e he
      cases he
    · rw [hlogged]
      intro e he
      obtain ⟨entry, hentry, rfl⟩ := Option.map_eq_some_iff.mp he
      exact (Effect.entry_counts _ hpos (worker t)).1 entry hentry
  | started | stopped | closed | rejected | built | inserted | conflict | replayed | lost | enqueued | refused
  | uninitialised | began | idled | deleted =>
    intro e he
    cases he

/-- The counters of a process count what it logs. -/
theorem counts_run (h : Run (step env) World.initial as os w) : (w.procs p).Counts (journal env worker p as) := by
  induction h with
  | nil => exact ⟨fun _ => rfl, rfl, rfl⟩
  | @snoc t t' as os a o hrun hs ih =>
    have hm := Move.of_step hs
    have hcounters := hm.counters p
    obtain ⟨-, hsuccess, hanswer⟩ := (t.procs p).metered_effects p (a.process t) o
    obtain ⟨hlsuccess, hlanswer⟩ := hm.logged_effects worker p
    rw [journal, hrun.along_snoc _ hs]
    refine ⟨?_, ?_, ?_⟩
    · intro source
      rw [hcounters.received, List.countP_append, ← journal, ← ih.received source]
      by_cases hcounted : ∃ r s, o = .counted r s
      · obtain ⟨r, s, rfl⟩ := hcounted
        obtain ⟨i, hh, rfl, hprocess, hlogged⟩ := hm.logged_counted worker p
        rw [hlogged, Proc.metered, hprocess]
        by_cases hp : i.pid = p
        · simp [hp, Proc.receive, update_succ_apply, Entry.receivedFrom]
        · simp [hp]
      · have hnone := hm.logged_other worker p (fun r s heq => hcounted ⟨r, s, heq⟩)
        have hzero : (logged worker p t a o t').toList.countP (fun e => e.2.receivedFrom == some source) = 0 := by
          rw [List.countP_eq_zero]
          intro e he
          rw [(hnone e (Option.mem_toList.mp he)).1]
          exact Bool.false_ne_true
        rw [hzero, Nat.add_zero]
        cases o with
        | counted r s => exact absurd ⟨r, s, rfl⟩ hcounted
        | job p' t id eff => rw [Proc.metered_job_received]
        | started | stopped | closed | rejected | built | inserted | conflict | replayed | lost | enqueued
        | refused | uninitialised | marked | began | idled | deleted => rfl
    · rw [hcounters.successes, hsuccess, List.countP_append, hlsuccess, ← journal, ih.successes]
    · rw [hcounters.latency, hanswer, List.countP_append, hlanswer, ← journal, ih.answers]

/-! ## The events it names -/

/-- An event that process `p` has counted. -/
def CountedIn (p : Nat) (os : List Obs) (id : String) : Prop :=
  ∃ r i, .built r i ∈ os ∧ .counted r i.event.source ∈ os ∧ i.pid = p ∧ i.event.id = id

/-- A handler has counted its event when it has stored it and is past the
counter. -/
theorem Shape.counted_iff {r : Nat} {h : Handler} {tr : List Obs} {i : Intake} (hs : Shape env r h tr)
    (hb : .built r i ∈ tr) :
    .counted r i.event.source ∈ tr ↔ .inserted r (i.row env) ∈ tr ∧ h ≠ .active i .counting := by
  cases hs <;> simp_all

theorem counted_iff (h : Run (step env) World.initial as os w) {r : Nat} {i : Intake} (hb : .built r i ∈ os) :
    .counted r i.event.source ∈ os ↔ .inserted r (i.row env) ∈ os ∧ w.handlers r ≠ .active i .counting := by
  have hiff := (shape_run h r).counted_iff (mem_trail.mpr ⟨hb, rfl⟩)
  simpa [mem_trail, Obs.request] using hiff

/-- A step that counts an event makes it counted. -/
theorem countedIn_counted (h : Run (step env) World.initial as os w) {r : Nat} {i : Intake}
    (hh : w.handlers r = .active i .counting) (id : String) :
    CountedIn p (os ++ [.counted r i.event.source]) id ↔ CountedIn p os id ∨ (i.pid = p ∧ i.event.id = id) := by
  have hbuilt : .built r i ∈ os := built_of_active h hh
  constructor
  · rintro ⟨r', i', hb, hc, hp, hid⟩
    have hb' : .built r' i' ∈ os := by simpa using hb
    rcases List.mem_append.mp hc with hc | hc
    · exact .inl ⟨r', i', hb', hc, hp, hid⟩
    · obtain ⟨rfl, -⟩ := Obs.counted.inj (List.mem_singleton.mp hc)
      obtain rfl := (shape_run h _).built_unique (mem_trail.mpr ⟨hb', rfl⟩) (mem_trail.mpr ⟨hbuilt, rfl⟩)
      exact .inr ⟨hp, hid⟩
  · rintro (⟨r', i', hb, hc, hp, hid⟩ | ⟨hp, hid⟩)
    · exact ⟨r', i', List.mem_append_left _ hb, List.mem_append_left _ hc, hp, hid⟩
    · exact ⟨r, i, List.mem_append_left _ hbuilt, List.mem_append_right _ List.mem_cons_self, hp, hid⟩

/-- No other step makes an event counted. -/
theorem countedIn_other (h : Run (step env) World.initial as os w) (hs : step env w a = some (w', o))
    (ho : ∀ r source, o ≠ .counted r source) (id : String) : CountedIn p (os ++ [o]) id ↔ CountedIn p os id := by
  constructor
  · rintro ⟨r, i, hb, hc, hp, hid⟩
    have hc' : .counted r i.event.source ∈ os := by
      rcases List.mem_append.mp hc with hc | hc
      · exact hc
      · exact absurd (List.mem_singleton.mp hc).symm (ho r _)
    rcases List.mem_append.mp hb with hb | hb
    · exact ⟨r, i, hb, hc', hp, hid⟩
    · -- what has just been built is not counted yet
      cases List.mem_singleton.mp hb
      cases Move.of_step hs with
      | built ha =>
        have hshape := shape_run h r
        have htrail : Obs.counted r i.event.source ∈ trail r os := mem_trail.mpr ⟨hc', rfl⟩
        rw [ha] at hshape
        generalize trail r os = tr at hshape htrail
        cases hshape
        cases htrail
  · rintro ⟨r, i, hb, hc, hp, hid⟩
    exact ⟨r, i, List.mem_append_left _ hb, List.mem_append_left _ hc, hp, hid⟩

/-- The ids a journal names are those its process has counted, each once. -/
theorem journal_ids (h : Run (step env) World.initial as os w) :
    ((journal env worker p as).filterMap (fun e => e.2.receivedId)).Nodup ∧
      ∀ id, id ∈ (journal env worker p as).filterMap (fun e => e.2.receivedId) ↔ CountedIn p os id := by
  induction h with
  | nil => exact ⟨List.nodup_nil, fun id => iff_of_false List.not_mem_nil (fun ⟨_, _, hb, _⟩ => by cases hb)⟩
  | @snoc t t' as os a o hrun hs ih =>
    obtain ⟨hnodup, hmem⟩ := ih
    have hm := Move.of_step hs
    rw [journal, hrun.along_snoc _ hs, ← journal, List.filterMap_append]
    by_cases hcounted : ∃ r s, o = .counted r s
    · obtain ⟨r, s, rfl⟩ := hcounted
      obtain ⟨i, hh, rfl, -, hlogged⟩ := hm.logged_counted worker p
      rw [hlogged]
      by_cases hp : i.pid = p
      · rw [if_pos hp]
        refine ⟨?_, ?_⟩
        · rw [List.nodup_append]
          refine ⟨hnodup, List.nodup_singleton _, ?_⟩
          intro id hid id' hid' heq
          obtain rfl : id' = i.event.id := List.mem_singleton.mp hid'
          obtain ⟨r', i', hb, hc, -, hid⟩ := (hmem id).mp hid
          obtain ⟨rfl, rfl⟩ := built_unique hrun hb (built_of_active hrun hh) (hid.trans heq)
          exact ((counted_iff hrun hb).mp hc).2 hh
        · intro id
          rw [countedIn_counted p hrun hh, List.mem_append, hmem, and_iff_right hp]
          exact or_congr_right (List.mem_singleton.trans eq_comm)
      · rw [if_neg hp]
        refine ⟨by simpa using hnodup, ?_⟩
        intro id
        rw [countedIn_counted p hrun hh, List.mem_append, hmem]
        simp [hp]
    · have hother : ∀ r s, o ≠ .counted r s := fun r s heq => hcounted ⟨r, s, heq⟩
      have hnone := hm.logged_other worker p hother
      have hnil : (logged worker p t a o t').toList.filterMap (fun e => e.2.receivedId) = [] := by
        rw [List.filterMap_eq_nil_iff]
        intro e he
        exact (hnone e (Option.mem_toList.mp he)).2
      rw [hnil, List.append_nil]
      exact ⟨hnodup, fun id => (hmem id).trans (countedIn_other p hrun hs hother id).symm⟩

/-! ## The integers it passes -/

/-- The integers an entry passes. -/
def Entry.numbers : Entry → List Int
  | .eventReceived _ _ | .relayQueueFull _ _ => []
  | .relaySuccess statusCode attempt | .relayNon2xx statusCode attempt => [statusCode, attempt]
  | .relayTimeout attempt | .relayConnectError attempt _ | .relayHttpError attempt _ => [attempt]
  | .relayDispatchJobFailed worker => [worker]

/-- The integers of a journal are status codes, numbers of attempts and indexes
of workers. -/
theorem Effect.entry_numbers {eff : Effect} {pos : Position} (k : Nat)
    (hcode : ∀ statusCode, eff = .answered (.response statusCode) → 100 ≤ statusCode ∧ statusCode < 1000)
    (hpos : ∀ res n vars, eff = .answered res → pos = .inFlight n vars → n ≤ maxAttempts) :
    ∀ e ∈ eff.entry k pos, ∀ i ∈ e.numbers, i.natAbs < 1000 ∨ i = k := by
  intro e he i hi
  unfold Effect.entry at he
  split at he
  · next res n vars =>
    have hn : n ≤ 4 := hpos res n vars rfl rfl
    refine .inl ?_
    cases res with
    | response statusCode =>
      have hrange := hcode statusCode rfl
      simp only [PostResult.entry] at he
      split at he <;> cases he <;>
        simp only [Entry.numbers, List.mem_cons, List.not_mem_nil, or_false] at hi <;> omega
    | timeoutException _ | connectError _ | httpError _ =>
      cases he
      simp only [Entry.numbers, List.mem_cons, List.not_mem_nil, or_false] at hi
      omega
    | raised _ => cases he
  · cases he
    exact .inr (List.mem_singleton.mp hi)
  · cases he

theorem journal_numbers (h : Run (step env) World.initial as os w)
    (hcodes : ∀ o ∈ os, ∀ c, o.statusCode? = some c → 100 ≤ c ∧ c < 1000) :
    ∀ e ∈ journal env worker p as, ∀ i ∈ e.2.numbers, i.natAbs < 1000 ∨ ∃ t, i = worker t := by
  induction h with
  | nil =>
    intro e he
    cases he
  | @snoc t t' as os a o hrun hs ih =>
    have hm := Move.of_step hs
    have hcode := hcodes o (List.mem_append_right _ List.mem_cons_self)
    intro e he
    rw [journal, hrun.along_snoc _ hs, List.mem_append, Option.mem_toList] at he
    rcases he with he | he
    · exact ih (fun o ho => hcodes o (List.mem_append_left _ ho)) e he
    · cases o with
      | counted r source | marked r id =>
        simp only [logged] at he
        split at he
        · split at he <;> cases he
          intro i hi
          cases hi
        · cases he
      | job p' u id eff =>
        rcases hm.logged_job worker p with ⟨-, hnone⟩ | ⟨-, pos, hlogged, hpos⟩
        · rw [hnone] at he
          cases he
        · rw [hlogged] at he
          obtain ⟨entry, hentry, rfl⟩ := Option.map_eq_some_iff.mp he
          have hnumbers := Effect.entry_numbers (worker u) ?_ ?_ entry hentry
          · exact fun i hi => (hnumbers i hi).imp_right (fun heq => ⟨u, heq⟩)
          · rintro statusCode rfl
            exact hcode statusCode rfl
          · intro res n vars heff heq
            obtain ⟨q, job, n', vars', rfl, hjob⟩ := hpos res heff
            cases heq
            exact ((traced_run hrun).running p u q job _ hjob).sound.1.2
      | started | stopped | closed | rejected | built | inserted | conflict | replayed | lost | enqueued | refused
      | uninitialised | began | idled | deleted => cases he

end

end WebhookRelay
