import WebhookRelay.Admission
import WebhookRelay.Config
import WebhookRelay.Deliveries
import WebhookRelay.Draining
import WebhookRelay.Reads

/-
  What the environment variables say is what runs do. Every process has the
  settings `get_settings` read from its own variables (`Configured`); then in
  every run, read off the text of the variables, rows come from requests that the
  variables of their process admit, POSTs go where they direct, and a running
  dispatcher has the queue and the workers they size (`settings_enforced`).
-/
namespace WebhookRelay

open Py Transition

/-! ## What the variables say -/

/-- Each process has the settings of its variables. -/
def Configured (env : Env) (decimal : Char → Option (Fin 10)) (environs : Nat → Environ) : Prop :=
  ∀ p, ∃ c, getSettings env decimal (environs p) = .ok c ∧ env.settings p = c.settings

namespace Environ

variable (env : Env) (decimal : Char → Option (Fin 10)) (e : Environ)

/-- The variable, or its default, is read as the integer. -/
def Says (name default : String) (i : Int) : Prop := intOf decimal env.json.maxDigits (e.getenv name default) = some i

/-- A request that ALLOWED_SOURCES, MAX_BODY_BYTES and WEBHOOK_SECRET let through. -/
structure Admits (req : Request) : Prop where
  source : (∀ item ∈ splitComma (e.getenv "ALLOWED_SOURCES" ""), strip item = "") ∨
    ∃ item ∈ splitComma (e.getenv "ALLOWED_SOURCES" ""), strip item ≠ "" ∧ strip item = req.source
  size : ∃ limit, e.Says env decimal "MAX_BODY_BYTES" "1048576" limit ∧ (req.rawBody.length : Int) ≤ limit
  signature : e.getenv "WEBHOOK_SECRET" "" = "" ∨
    SignedBy env req.rawBody (req.header "x-webhook-signature") (text (e.getenv "WEBHOOK_SECRET" ""))

/-- A POST to TARGET_URL, whose host RELAY_ALLOW_HOSTS lists. -/
structure Directs (post : Post) : Prop where
  url : post.url = strip (e.getenv "TARGET_URL" "") ∧ post.url ≠ ""
  host : ∃ scheme hostname, env.urlparse post.url = .ok (scheme, hostname) ∧ targetHost env hostname ≠ "" ∧
    Listed env (e "RELAY_ALLOW_HOSTS") (targetHost env hostname)

/-- A dispatcher with the workers of RELAY_WORKER_CONCURRENCY, and no more jobs
waiting than RELAY_QUEUE_SIZE; less than one counts as one. -/
structure Sizes {J P : Type} (d : Dispatcher J P) (q : Nat) : Prop where
  workers : ∃ count, e.Says env decimal "RELAY_WORKER_CONCURRENCY" "8" count ∧
    (d.dispatchWorkers.length : Int) = max count 1
  queue : ∃ size, e.Says env decimal "RELAY_QUEUE_SIZE" "1000" size ∧ ((d.queues q).items.length : Int) ≤ max size 1

end Environ

/-! ## The size of a dispatcher -/

namespace Dispatcher

variable {J P : Type}

/-- A running dispatcher has the workers and the queue of its startup. -/
structure Sized (workerCount queueSize : Int) (d : Dispatcher J P) : Prop where
  workers : ∀ q, d.dispatchQueue = some q → (d.dispatchWorkers.length : Int) = max workerCount 1
  maxsize : ∀ q, d.dispatchQueue = some q → (d.queues q).maxsize = max queueSize 1
  room : ∀ q, d.dispatchQueue = some q → ((d.queues q).items.length : Int) ≤ max queueSize 1

variable {workerCount queueSize : Int} {d : Dispatcher J P}

theorem Sized.stopped (h : d.dispatchQueue = none) : d.Sized workerCount queueSize := by
  refine ⟨?_, ?_, ?_⟩ <;> intro q hq <;> rw [h] at hq <;> cases hq

theorem sized_startup (hold : d.Sized workerCount queueSize) :
    (d.startup workerCount queueSize).Sized workerCount queueSize := by
  cases hq : d.dispatchQueue with
  | some q =>
    rw [startup_running (by rw [hq]; rfl)]
    exact hold
  | none =>
    let Q : Queue J := { maxsize := max queueSize 1 }
    have hnew : (Function.update d.queues d.nextQueue Q) d.nextQueue = Q := Function.update_self ..
    rw [startup_idle hq]
    refine ⟨?_, ?_, ?_⟩
    · intro q _
      rw [List.length_range']
      omega
    · intro q hq'
      cases hq'
      exact congrArg Queue.maxsize hnew
    · intro q hq'
      cases hq'
      show (((Function.update d.queues d.nextQueue Q) d.nextQueue).items.length : Int) ≤ max queueSize 1
      rw [hnew]
      show (0 : Int) ≤ max queueSize 1
      omega

theorem Sized.setState (h : d.Sized workerCount queueSize) (t : Nat) (s : TaskState J P) :
    (d.setState t s).Sized workerCount queueSize := ⟨h.workers, h.maxsize, h.room⟩

/-- A queue may be replaced by one that is no larger and has room for its items. -/
theorem Sized.setQueue (h : d.Sized workerCount queueSize) {q : Nat} {Q : Queue J}
    (hmax : Q.maxsize = (d.queues q).maxsize)
    (hroom : d.dispatchQueue = some q → (Q.items.length : Int) ≤ max queueSize 1) :
    (d.setQueue q Q).Sized workerCount queueSize := by
  refine ⟨h.workers, ?_, ?_⟩
  · intro q' hq'
    rw [setQueue_queues]
    by_cases heq : q' = q
    · rw [heq, Function.update_self, hmax]
      exact h.maxsize q (heq ▸ hq')
    · rw [Function.update_of_ne heq]
      exact h.maxsize q' hq'
  · intro q' hq'
    rw [setQueue_queues]
    by_cases heq : q' = q
    · rw [heq, Function.update_self]
      exact hroom (heq ▸ hq')
    · rw [Function.update_of_ne heq]
      exact h.room q' hq'

theorem Sized.jobDone (h : d.Sized workerCount queueSize) {d' : Dispatcher J P} {t : Nat} {e : JobEnd}
    (hd : d.jobDone t e = some d') : d'.Sized workerCount queueSize := by
  obtain ⟨q, job, pos, -, ⟨-, rfl⟩ | ⟨-, rfl⟩⟩ := jobDone_some hd
  · exact h.setState t _
  · apply Sized.setState
    exact h.setQueue rfl (h.room q)

end Dispatcher

section

variable {env : Env} {w w' : World} {a : Act} {o : Obs} {as : List Act} {os : List Obs}

/-- A job is accepted only by a queue that is not full. -/
theorem enqueued_room {r p q : Nat} {job : RelayJob} (hs : step env w a = some (w', .enqueued r p q job)) :
    ((w.procs p).dispatcher.queues q).full = false := by
  have hm := Move.of_step hs
  cases hm with
  | @enqueued r q i d hh hq hd =>
    simp only [step, stepHandler, hh] at hs
    split at hs
    · cases (Prod.mk.inj (Option.some.inj hs)).2
    · next d' he =>
      obtain ⟨q', hq', ⟨-, hroom, -⟩ | ⟨hb, -, -⟩⟩ := Dispatcher.enqueue_ok he
      · rw [hq] at hq'
        cases hq'
        exact hroom
      · cases hb
    · cases (Prod.mk.inj (Option.some.inj hs)).2

/-- The dispatcher of a process has the size its settings give it. -/
def World.Sized (env : Env) (w : World) (p : Nat) : Prop :=
  (w.procs p).dispatcher.Sized (env.settings p).relayWorkerConcurrency (env.settings p).relayQueueSize

theorem sized_step (hs : step env w a = some (w', o)) (hw : ∀ p, w.Sized env p) (p : Nat) : w'.Sized env p := by
  have at_p : ∀ p' P, (P : Proc).dispatcher.Sized (env.settings p').relayWorkerConcurrency
      (env.settings p').relayQueueSize → (w.setProc p' P).Sized env p := by
    intro p' P hP
    rcases w.setProc_cases p p' P with ⟨rfl, h⟩ | h
    · rw [World.Sized, h]
      exact hP
    · rw [World.Sized, h]
      exact hw p
  have hm := Move.of_step hs
  cases hm with
  | @started p' _ => exact at_p _ _ (Dispatcher.sized_startup (hw p'))
  | stopped _ _ => exact at_p _ _ (.stopped rfl)
  | closed _ _ | countedRelay _ _ _ | countedOnly _ _ => exact at_p _ _ (hw _)
  | rejected _ | built _ _ _ | inserted _ _ | conflict _ _ _ | lostInsert _ _ _ | replayed _ _
  | lostLookup _ _ | refused _ | uninitialised _ _ | marked _ | deleted => exact hw p
  | @enqueued r q i d hh hq hd =>
    have hroom := enqueued_room hs
    subst hd
    refine at_p _ _ ((hw _).setQueue rfl ?_)
    intro _
    -- the queue was not full, and it is bounded
    have hmax := (hw i.pid).maxsize q hq
    rw [Queue.full, hmax, if_neg (by omega), decide_eq_false_iff_not] at hroom
    rw [List.length_append, List.length_singleton]
    omega
  | began _ _ _ | beganLate _ _ _ | idled _ _ | recorded _ _ => exact at_p _ _ ((hw _).setState _ _)
  | @taken p' t q job rest _ _ hi =>
    apply at_p
    apply Dispatcher.Sized.setState
    refine (hw p').setQueue rfl ?_
    intro hq
    have hlength := (hw p').room q hq
    rw [hi, List.length_cons] at hlength
    show (rest.length : Int) ≤ _
    omega
  | worked _ _ _ _ =>
    apply at_p
    rw [Proc.count_dispatcher]
    exact (hw _).setState _ _
  | finished _ _ _ hd | dropped _ _ hd => exact at_p _ _ ((hw _).jobDone hd)

theorem sized_run (h : Run (step env) World.initial as os w) (p : Nat) : w.Sized env p := by
  induction h generalizing p with
  | nil => exact .stopped rfl
  | snoc _ hs ih => exact sized_step hs ih p

/-! ## Where a job may post -/

/-- A job that resolves or posts has a host that its preflight admitted. -/
def Position.Aimed : Position → Prop
  | .resolving | .attempt _ _ | .inFlight _ _ => True
  | .start | .persist _ | .returned | .raised _ => False

theorem JobTrace.aimed {job : RelayJob} {tr : List Effect} {pos : Position} (h : JobTrace env job tr pos)
    (haimed : pos.Aimed) : ∃ host, preflightPolicy env job = .ok (.inr host) := by
  induction h with
  | start => exact haimed.elim
  | turn _ ht ih =>
    cases ht with
    | literal hhost _ | named hhost _ => exact ⟨_, hhost⟩
    | unparsed _ | skipped _ | gaierror | unresolved | recorded => exact haimed.elim
    | resolved | posted _ | answered => exact ih trivial

/-- What the preflight found out about the host. -/
theorem preflightPolicy_target {job : RelayJob} {host : String} (h : preflightPolicy env job = .ok (.inr host)) :
    ∃ scheme hostname, env.urlparse job.targetUrl = .ok (scheme, hostname) ∧ host = targetHost env hostname ∧
      host ≠ "" ∧ ¬ (job.relayAllowHosts ≠ [] ∧ host ∉ job.relayAllowHosts) := by
  unfold preflightPolicy at h
  split at h
  · cases h
  · next scheme hostname hparse =>
    simp only at h
    split at h
    · cases h
    · split at h
      · cases h
      · next hne =>
        split at h
        · cases h
        · next hlisted =>
          cases h
          exact ⟨scheme, hostname, hparse, rfl, hne, hlisted⟩

/-- The preflight of a job that posts has admitted its host. -/
theorem posted_aimed (h : Run (step env) World.initial as os w) {p t : Nat} {id : String} {post : Post}
    (hp : .job p t id (.posted post) ∈ os) :
    ∃ r i, JobOf env os p (relayJob (env.settings p) i.event) r i ∧ post.url = (env.settings p).targetUrl ∧
      ∃ host, preflightPolicy env (relayJob (env.settings p) i.event) = .ok (.inr host) := by
  obtain ⟨l, m, hos⟩ := List.append_of_mem hp
  obtain ⟨job, r, i, pos, pos', input, client, hjob, -, htr, ht⟩ := job_of_effect h hos (if_pos rfl)
  obtain rfl := hjob.job
  generalize heff : Effect.posted post = eff at ht
  cases ht with
  | posted _ =>
    cases heff
    exact ⟨r, i, hjob, rfl, htr.aimed trivial⟩
  | unparsed _ | skipped _ | literal _ _ | named _ _ | resolved | gaierror | unresolved | answered | recorded =>
    cases heff

/-- A job was accepted under a target. -/
theorem target_of_job (h : Run (step env) World.initial as os w) {p r : Nat} {job : RelayJob} {i : Intake}
    (hjob : JobOf env os p job r i) : (env.settings p).targetUrl ≠ "" := by
  obtain ⟨q, haccepted⟩ := hjob.accepted
  obtain ⟨-, -, -, i', hbuilt, htarget, -⟩ := (shape_run h r).accepted (mem_trail.mpr ⟨haccepted, rfl⟩)
  obtain rfl := (shape_run h r).built_unique hbuilt (mem_trail.mpr ⟨hjob.built, rfl⟩)
  exact hjob.pid ▸ htarget

theorem text_eq_nil {s : String} : text s = [] ↔ s = "" := by
  rw [text, Str.ofChars, List.map_eq_nil_iff, String.toList_eq_nil_iff]

/-! ## Enforcement -/

section

variable {decimal : Char → Option (Fin 10)} {environs : Nat → Environ} (hc : Configured env decimal environs)

include hc

/-- A request that got past the checks is one the variables admit. -/
theorem admits_of_built {p : Nat} {capacity : Except PyExc Bool} {req : Request} {draws : Draws} {i : Intake}
    (hb : buildEvent env p capacity req draws = .ok i) : (environs p).Admits env decimal req := by
  obtain ⟨payload, hvalid, -, -, -⟩ := buildEvent_ok hb
  obtain ⟨c, hread, hsettings⟩ := hc p
  obtain ⟨workers, queue, -, hbody, -, -, -, -, heq⟩ := getSettings_ok hread
  have hadmitted := admitted_of_valid hvalid
  rw [hsettings] at hadmitted
  refine ⟨?_, ⟨c.maxBodyBytes, readInt_ok.mp hbody, hadmitted.size⟩, ?_⟩
  · have hsources : c.settings.allowedSources = csvSet (environs p "ALLOWED_SOURCES") :=
      congrArg Config.allowedSources heq
    have hsource := hadmitted.source
    rw [hsources, csvSet_nil, mem_csvSet] at hsource
    exact hsource
  · have hsecret : c.webhookSecret = (environs p).getenv "WEBHOOK_SECRET" "" := congrArg Config.webhookSecret heq
    rw [← hsecret]
    rcases hadmitted.signature with hnone | hsigned
    · exact .inl (text_eq_nil.mp hnone)
    · exact .inr hsigned

/-- **The variables are enforced.** In every run each row was made by the request
of its handler, which the variables of its process admit, POSTs go where the
variables direct, and running dispatchers have the queue and the workers the
variables size. -/
theorem settings_enforced (h : Run (step env) World.initial as os w) :
    (∀ r row, .inserted r row ∈ os → ∃ p req draws, .request p r req draws ∈ as ∧
      row.id = draws.eventUuid.text ∧ row.source = req.source ∧ parseBody env req.rawBody = .ok row.payload ∧
      (environs p).Admits env decimal req) ∧
    (∀ p t id post, .job p t id (.posted post) ∈ os → (environs p).Directs env post) ∧
    ∀ p q, (w.procs p).dispatcher.dispatchQueue = some q →
      (environs p).Sizes env decimal (w.procs p).dispatcher q := by
  refine ⟨?_, ?_, ?_⟩
  · intro r row hrow
    obtain ⟨i, hbuilt, rfl⟩ := built_of_inserted h hrow
    obtain ⟨al, ar, ol, t, p, req, draws, rfl, -, hb⟩ := arrival_of_built h hbuilt
    obtain ⟨payload, hvalid, -, hcols, -⟩ := buildEvent_ok hb
    have hpayload : (i.row env).payload = payload := congrArg IntakeColumns.payload hcols
    refine ⟨p, req, draws, List.mem_append_right _ List.mem_cons_self, congrArg IntakeColumns.id hcols,
      congrArg IntakeColumns.source hcols, ?_, admits_of_built hc hb⟩
    rw [(validateRequest_ok hvalid).2.2.2, hpayload]
  · intro p t id post hpost
    obtain ⟨r, i, hjob, hurl, host, hhost⟩ := posted_aimed h hpost
    obtain ⟨c, hread, hsettings⟩ := hc p
    obtain ⟨workers, queue, -, -, -, -, -, -, heq⟩ := getSettings_ok hread
    obtain ⟨scheme, hostname, hparse, rfl, hne, hlisted⟩ := preflightPolicy_target hhost
    have htarget : (env.settings p).targetUrl = strip ((environs p).getenv "TARGET_URL" "") := by
      rw [hsettings]
      exact congrArg Config.targetUrl heq
    have hhosts : (env.settings p).relayAllowHosts = relayAllowHosts env (environs p "RELAY_ALLOW_HOSTS") := by
      rw [hsettings]
      exact congrArg Config.relayAllowHosts heq
    refine ⟨⟨hurl.trans htarget, ?_⟩, scheme, hostname, ?_, hne, ?_⟩
    · rw [hurl]
      exact target_of_job h hjob
    · rw [hurl]
      exact hparse
    · rw [listed_iff, ← hhosts]
      exact hlisted
  · intro p q hq
    obtain ⟨c, hread, hsettings⟩ := hc p
    obtain ⟨workers, size, -, -, -, hworkers, hqueue, -, heq⟩ := getSettings_ok hread
    have hsized := sized_run h p
    have hcount : (env.settings p).relayWorkerConcurrency = max workers 1 := by
      rw [hsettings]
      exact congrArg Config.relayWorkerConcurrency heq
    have hsize : (env.settings p).relayQueueSize = max size 1 := by
      rw [hsettings]
      exact congrArg Config.relayQueueSize heq
    rw [World.Sized, hcount, hsize] at hsized
    refine ⟨⟨workers, readInt_ok.mp hworkers, ?_⟩, ⟨size, readInt_ok.mp hqueue, ?_⟩⟩
    · have hlength := hsized.workers q hq
      omega
    · have hlength := hsized.room q hq
      omega

end

end

/-- In a run with a delivery: the row is that of the admitted request, the POST
goes where the variables direct, and the dispatcher has the one worker and the
queue they size. -/
theorem settings_enforced_delivered :
    ∃ w os row post q, exec (step sampleEnv) World.initial (acceptActs ++ deliverActs) = some (w, os) ∧
      (.inserted 1 row ∈ os ∧ ∃ req draws, .request 0 1 req draws ∈ acceptActs ++ deliverActs ∧
        row.id = draws.eventUuid.text ∧ sampleEnviron.Admits sampleEnv (fun _ => none) req) ∧
      ((∃ p t, .job p t (sampleDraws 1 10).eventUuid.text (.posted post) ∈ os) ∧ sampleEnviron.Directs sampleEnv post) ∧
      ((w.procs 0).dispatcher.dispatchQueue = some q ∧
        sampleEnviron.Sizes sampleEnv (fun _ => none) (w.procs 0).dispatcher q) := by
  have hconfigured : Configured sampleEnv (fun _ => none) (fun _ => sampleEnviron) :=
    fun _ => ⟨sampleConfig, sampleEnviron_read, rfl⟩
  obtain ⟨w, os, p, t, post, h, ho, -⟩ := delivered_post
  have hrun : (exec (step sampleEnv) World.initial (acceptActs ++ deliverActs)).map (fun r =>
      ((r.2.filterMap Obs.insertedRow).map Prod.fst, (r.1.procs 0).dispatcher.dispatchQueue)) =
        some ([1], some 0) := by
    decide +kernel
  simp only [h, Option.map_some, Option.some.injEq, Prod.mk.injEq] at hrun
  obtain ⟨hrows, hqueue⟩ := hrun
  obtain ⟨⟨r, row⟩, hmem, rfl⟩ := List.mem_map.mp (hrows ▸ List.mem_singleton_self 1)
  have hinserted := mem_insertedRows hmem
  obtain ⟨hfrom, hdirects, hsizes⟩ := settings_enforced hconfigured (Run.of_exec h)
  obtain ⟨p', req, draws, hreq, hid, -, -, hadmits⟩ := hfrom _ row hinserted
  have hp : p' = 0 := by
    simp only [acceptActs, deliverActs, List.cons_append, List.nil_append, List.mem_cons, Act.request.injEq,
      List.not_mem_nil, reduceCtorEq, false_or, or_false] at hreq
    exact hreq.1
  subst hp
  exact ⟨w, os, row, post, 0, h, ⟨hinserted, req, draws, hreq, hid, hadmits⟩, ⟨⟨p, t, ho⟩, hdirects p t _ post ho⟩,
    hqueue, hsizes 0 0 hqueue⟩

end WebhookRelay
